import SlotClock.Rate

/-!
The makes of output compare channel that the bench has boards for.
-/

namespace SlotClock.Bench

structure ChannelModel where
  rate : Rate
  top : UInt32
  writeCycles : UInt32
  burns : Bool
  deriving DecidableEq, Repr

namespace ChannelModel

def table : List (String × ChannelModel) :=
  [("ref32", ⟨.reference, 0xFFFFFFFF, 0, true⟩),
   ("default32", ⟨.reference, 0xFFFFFFFF, 0, false⟩),
   ("ref16", ⟨.reference, 0xFFFF, 16, true⟩),
   ("sym16", ⟨.symbol, 0xFFFF, 16, true⟩),
   ("slow16", ⟨⟨1024, by decide⟩, 0xFFFF, 3, true⟩),
   ("us32", ⟨⟨1000000, by decide⟩, 0xFFFFFFFF, 0, true⟩),
   ("mhz84_24", ⟨⟨84000000, by decide⟩, 0xFFFFFF, 1, true⟩),
   ("odd1000", ⟨⟨32767, by decide⟩, 999, 0, true⟩),
   ("one8", ⟨⟨1, by decide⟩, 0xFF, 0, true⟩),
   ("max32", ⟨⟨4294967295, by decide⟩, 0xFFFFFFFF, 0, true⟩),
   ("period3", ⟨.reference, 2, 0, true⟩),
   ("period2", ⟨.reference, 1, 0, true⟩),
   ("period1", ⟨.reference, 0, 0, true⟩)]

def named? (name : String) : Option ChannelModel :=
  table.lookup name

end ChannelModel

end SlotClock.Bench
