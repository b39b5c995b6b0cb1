import SlotClock.Bench.Board

/-!
A tick source that answers from a script.

Its period and resolution are given, its reading can be fixed, and each arming takes
its outcome from a list, so that a schedule also meets outcomes that no well-behaved
hardware has.
-/

namespace SlotClock.Bench

structure ScriptedModel where
  rate : Rate
  period : UInt64
  resolution : UInt64
  deriving DecidableEq, Repr

structure ScriptedSource where
  board : Board
  /-- The outcomes of the next armings; `none`, or an empty list, covers what is asked for. -/
  outcomes : List (Option Arming) := []
  deriving DecidableEq, Repr

namespace ScriptedSource

def reading (model : ScriptedModel) (s : ScriptedSource) : UInt32 :=
  match s.board.forcedReading with
  | some reading => reading
  | none => if model.period = 0 then 0 else (s.board.time % model.period).toUInt32

def arm (base : UInt32) (delay : UInt64) (s : ScriptedSource) : Arming × ScriptedSource :=
  let board := s.board.log (.arm base delay)
  let outcomes := s.outcomes.tail
  match s.outcomes.head?.join.getD (.armed delay) with
  | .missed => (.missed, ⟨board, outcomes⟩)
  | .armed covered => (.armed covered, ⟨(board.expectMatch covered).armMatch.settle, outcomes⟩)

def source (model : ScriptedModel) : Source ScriptedSource where
  rate := model.rate
  period _ := model.period
  reading := reading model
  resolution _ := .ok model.resolution
  arm base delay s := .ok (arm base delay s)
  disarm s := { s with board := (s.board.log .disarm).withdraw }
  acknowledge s := { s with board := s.board.log .acknowledge }

end ScriptedSource

end SlotClock.Bench
