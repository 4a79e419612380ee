import Wish5380.Targ.Model

/-!
# An initiator in concrete cycles

What the bus carries, clock by clock, while an initiator selects the target and
hands it a descriptor block without wasting a clock.  Each cycle is the OR of
what the initiator drives and what the target drives back.
-/

namespace Wish5380.Targ

/-- The bus while the initiator selects ID 0 for one settle delay and a clock. -/
def selection (p : Params) : List Scsi :=
  List.replicate (p.nSettle + 1) { sel := true, data := p.idMask, dbp := dbpOf p.idMask }

/-- One byte of the command phase: set up, taken, released. -/
def commandByte (d : Byte) : List Scsi :=
  [{ bsy := true, cd := true },
   { bsy := true, cd := true, req := true, ack := true, data := d, dbp := dbpOf d },
   { bsy := true, cd := true }]

/-- Selection without ATN, the descriptor block, and the clock that executes it. -/
def command (p : Params) (cdb : List Byte) : List Scsi :=
  selection p ++ [{ bsy := true }] ++ cdb.flatMap commandByte ++ [{ bsy := true }]

/-- Present a list of bus cycles, then hold the last state of the bus. -/
def present (cycles : List Scsi) (rest : Scsi) (blk : ℕ → BlkRsp) (t : ℕ) : Cycle :=
  { bus := cycles.getD t rest, blk := blk t }

end Wish5380.Targ
