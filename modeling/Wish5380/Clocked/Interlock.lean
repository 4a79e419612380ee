import Mathlib.Data.List.Forall2
import Mathlib.Tactic.Common

/-!
# Interlocked handshakes

A sender and a receiver joined by a request line, an acknowledge line and a
value.  Each side is a small machine that moves one item at a time and may stall
at any point; the host behind it fills or empties it when it is asked to.  What
two of these machines exchange is decided by an invariant of their product:
which items are in flight, given where the two stand.
-/

namespace Interlock

variable {α β : Type*}

/-! ## Receivers -/

/-- A receiver with a latch of one item. -/
inductive Recv (α : Type*) where
  | off
  | want
  | got (d : α)
  | shake

/-- One step of a receiver.  `line` is what the other side drives, `d` the value
that comes with it, `on` whether the host leaves it running, `read` whether the
host takes the item. -/
inductive Recv.Step (line : Bool) (d : α) (on : Bool) : Bool → Recv α → Recv α → Prop where
  | halt (off : on = false) (r : Recv α) : Step line d on false r .off
  | idle : Step line d on false .off .off
  | start : Step line d on false .off .want
  | await (low : line = false) : Step line d on false .want .want
  | latch (high : line = true) : Step line d on false .want (.got d)
  | hold (e : α) : Step line d on false (.got e) (.got e)
  | take (e : α) : Step line d on true (.got e) .shake
  | wait (high : line = true) : Step line d on false .shake .shake
  | done (low : line = false) : Step line d on false .shake .want

/-! ## Senders -/

/-- A sender that waits to be asked before it offers. -/
inductive Send (α : Type*) where
  | off
  | ready
  | want
  | full (d : α)
  | offer (d : α)

/-- One step of a sender that answers a request.  The host may end it for good. -/
inductive Send.Step (req on : Bool) : Option α → Send α → Send α → Prop where
  | halt (off : on = false) (s : Send α) : Step req on none s .off
  | idle : Step req on none .ready .ready
  | start : Step req on none .ready .want
  | await : Step req on none .want .want
  | fill (d : α) : Step req on (some d) .want (.full d)
  | hold (low : req = false) (d : α) : Step req on none (.full d) (.full d)
  | raise (high : req = true) (d : α) : Step req on none (.full d) (.offer d)
  | keep (high : req = true) (d : α) : Step req on none (.offer d) (.offer d)
  | done (low : req = false) (d : α) : Step req on none (.offer d) .want

/-- A sender that makes the request itself, and waits for the answer to go. -/
inductive Push (α : Type*) where
  | ready
  | want
  | full (d : α)
  | offer (d : α)
  | rel

inductive Push.Step (ack : Bool) : Option α → Push α → Push α → Prop where
  | idle : Step ack none .ready .ready
  | start : Step ack none .ready .want
  | await : Step ack none .want .want
  | fill (d : α) : Step ack (some d) .want (.full d)
  | raise (d : α) : Step ack none (.full d) (.offer d)
  | keep (low : ack = false) (d : α) : Step ack none (.offer d) (.offer d)
  | taken (high : ack = true) (d : α) : Step ack none (.offer d) .rel
  | hold (high : ack = true) : Step ack none .rel .rel
  | done (low : ack = false) : Step ack none .rel .want

/-! ## Sides without a host -/

/-- A source that offers items of its own, one at a time. -/
inductive Source (α : Type*) where
  | rest
  | ask (d : α)

/-- One step of a source; the index is what it newly offers. -/
inductive Source.Step (ack : Bool) : Option α → Source α → Source α → Prop where
  | rest : Step ack none .rest .rest
  | raise (d : α) : Step ack (some d) .rest (.ask d)
  | keep (low : ack = false) (d : α) : Step ack none (.ask d) (.ask d)
  | release (high : ack = true) (d : α) : Step ack none (.ask d) .rest

/-- A sink asks for items one at a time: `true` while it asks. -/
inductive Sink.Step (ack : Bool) : Bool → Bool → Prop where
  | rest : Step ack false false
  | raise : Step ack false true
  | keep (low : ack = false) : Step ack true true
  | taken (high : ack = true) : Step ack true false

/-! ## A source and a receiver -/

def Recv.acks : Recv α → Bool
  | .off => false
  | .want => false
  | .got _ => false
  | .shake => true

@[simp] theorem Recv.acks_off : (Recv.off : Recv α).acks = false :=
  rfl

@[simp] theorem Recv.acks_want : (Recv.want : Recv α).acks = false :=
  rfl

@[simp] theorem Recv.acks_got (d : α) : (Recv.got d).acks = false :=
  rfl

@[simp] theorem Recv.acks_shake : (Recv.shake : Recv α).acks = true :=
  rfl

@[simp] def Source.asks : Source α → Bool
  | .ask _ => true
  | .rest => false

/-- The offered item that is not acknowledged yet. -/
@[simp] def Source.pending : Source α → List α
  | .ask d => [d]
  | .rest => []

/-- What a receiver's host has taken of what a source has offered: `R e b` says that `e` is an
item the offer `b` stands for. -/
structure Delivered (R : α → β → Prop) (r : Recv α) (o : Source β) (reads : List α)
    (offered past : List β) : Prop where
  offered_eq : offered = past ++ o.pending
  got : ∀ e, r = .got e → ∃ b, o = .ask b ∧ R e b
  reads_eq : List.Forall₂ R reads (if r.acks then offered else past)

theorem Delivered.inOrder {R : α → β → Prop} {r : Recv α} {o : Source β} {reads : List α}
    {offered past : List β} (link : Delivered R r o reads offered past) :
    (∃ taken, taken <+: offered ∧ List.Forall₂ R reads taken) ∧
      (past.length = reads.length ∨ past.length + 1 = reads.length) := by
  obtain ⟨offered_eq, _, reads_eq⟩ := link
  cases acks : r.acks with
  | false =>
      rw [acks] at reads_eq
      refine ⟨⟨past, ?_, reads_eq⟩, .inl reads_eq.length_eq.symm⟩
      rw [offered_eq]
      exact List.prefix_append _ _
  | true =>
      rw [acks] at reads_eq
      refine ⟨⟨offered, List.prefix_refl _, reads_eq⟩, ?_⟩
      have length : reads.length = offered.length := reads_eq.length_eq
      rw [length, offered_eq]
      cases o with
      | rest => exact .inl (by simp [Source.pending])
      | ask d => exact .inr (by simp [Source.pending])

/-- The item a host takes. -/
@[simp] def Recv.held : Recv α → List α
  | .off => []
  | .want => []
  | .got e => [e]
  | .shake => []

/-- One step of both sides together. -/
theorem Delivered.step {R : α → β → Prop} {r r' : Recv α} {o o' : Source β} {reads : List α}
    {offered past : List β} (link : Delivered R r o reads offered past) {d : α} {on read : Bool}
    {new : Option β} (value : ∀ b, o = .ask b → R d b)
    (receiver : Recv.Step o.asks d on read r r') (source : Source.Step r.acks new o o') :
    Delivered R r' o' (reads ++ if read then r.held else []) (offered ++ new.toList)
      (if o.asks && r.acks then past ++ o.pending else past) := by
  obtain ⟨rfl, got, taken⟩ := link
  cases source with
  | rest =>
      cases receiver with
      | latch high => cases high
      | hold e => simp at got
      | take e => simp at got
      | wait high => cases high
      | halt => exact ⟨by simp, by simp, by simpa using taken⟩
      | _ => exact ⟨by simp, by simp, by simpa using taken⟩
  | raise b =>
      cases receiver with
      | latch high => cases high
      | hold e => simp at got
      | take e => simp at got
      | wait high => cases high
      | halt => exact ⟨by simp, by simp, by simpa using taken⟩
      | _ => exact ⟨by simp, by simp, by simpa using taken⟩
  | keep low b =>
      rw [low] at taken
      replace taken : List.Forall₂ R reads past := taken
      cases receiver with
      | halt => exact ⟨by simp [low], by simp, by simpa [low] using taken⟩
      | latch => exact ⟨by simp [low], by simp [value b rfl], by simpa [low] using taken⟩
      | hold f => exact ⟨by simp [low], got, by simpa [low] using taken⟩
      | take f =>
          obtain ⟨c, is, item⟩ := got f rfl
          obtain rfl : b = c := by simpa using is
          refine ⟨by simp [low], by simp, ?_⟩
          simpa [low] using List.rel_append taken (.cons item .nil)
      | await quiet => simp at quiet
      | done quiet => simp at quiet
      | wait => simp at low
      | _ => exact ⟨by simp [low], by simp, by simpa [low] using taken⟩
  | release high b =>
      rw [high] at taken
      replace taken : List.Forall₂ R reads (past ++ [b]) := taken
      cases receiver with
      | halt => exact ⟨by simp [high], by simp, by simpa [high] using taken⟩
      | wait => exact ⟨by simp [high], by simp, by simpa [high] using taken⟩
      | done quiet => simp at quiet
      | _ => simp at high

/-! ## A sender and a sink -/

@[simp] def Send.offers : Send α → List α
  | .off => []
  | .ready => []
  | .want => []
  | .full _ => []
  | .offer d => [d]

/-- What a sink has taken of what a sender's host has given. -/
def Sent (s : Send α) (asking : Bool) (written taken : List α) : Prop :=
  match s with
  | .off => taken <+: written ∧ written.length ≤ taken.length + 1
  | .ready => written = taken
  | .want => written = taken
  | .full d => written = taken ++ [d]
  | .offer d => written = taken ++ if asking then [d] else []

theorem Sent.inOrder {s : Send α} {asking : Bool} {written taken : List α}
    (link : Sent s asking written taken) :
    taken <+: written ∧ written.length ≤ taken.length + 1 := by
  cases s with
  | off => exact link
  | ready => exact ⟨link ▸ List.prefix_refl _, by rw [show written = taken from link]; omega⟩
  | want => exact ⟨link ▸ List.prefix_refl _, by rw [show written = taken from link]; omega⟩
  | full d =>
      rw [show written = taken ++ [d] from link]
      exact ⟨List.prefix_append _ _, by simp⟩
  | offer d =>
      rw [show written = taken ++ (if asking then [d] else []) from link]
      cases asking with
      | true => exact ⟨List.prefix_append _ _, by simp⟩
      | false => exact ⟨List.prefix_append _ _, by simp⟩

/-- One step of both sides together: the sink takes what is offered while it asks. -/
theorem Sent.step {s s' : Send α} {asking asking' on : Bool} {written taken : List α}
    {new : Option α} (link : Sent s asking written taken) (sender : Send.Step asking on new s s')
    (sink : Sink.Step (!s.offers.isEmpty) asking asking') :
    Sent s' asking' (written ++ new.toList) (taken ++ if asking then s.offers else []) := by
  cases sender with
  | halt =>
      have given := link.inOrder
      cases s with
      | offer d =>
          cases asking with
          | false => simpa [Sent] using given
          | true =>
              rw [show written = taken ++ [d] from link]
              simp [Sent]
      | _ => simpa [Sent] using given
  | idle => simpa [Sent] using link
  | start => simpa [Sent] using link
  | await => simpa [Sent] using link
  | fill d => simpa [Sent] using link
  | hold low d => simpa [Sent, low] using link
  | raise high d =>
      subst high
      cases sink with
      | keep => simpa [Sent] using link
      | taken high => simp at high
  | keep high d =>
      subst high
      cases sink with
      | keep low => simp at low
      | taken => simpa [Sent] using link
  | done low d => simpa [Sent, low] using link

/-! ## A sender and a receiver that asks -/

/-- The items in flight between a sender and a receiver that makes the requests. -/
def pulled : Send α → Recv α → Option (List α)
  | .off, _ => none
  | .offer d, .want => some [d]
  | .offer _, .got e => some [e]
  | .offer _, _ => none
  | .full d, .got e => some [e, d]
  | .full d, _ => some [d]
  | .ready, .got e => some [e]
  | .want, .got e => some [e]
  | .ready, _ => some []
  | .want, _ => some []

/-- A receiver that makes the requests does so while it wants an item. -/
@[simp] def Recv.requests : Recv α → Bool
  | .want => true
  | .off => false
  | .got _ => false
  | .shake => false

/-- What the receiver's host has read and what is in flight is what the sender's
host has written. -/
def Pulled (s : Send α) (r : Recv α) (written reads : List α) : Prop :=
  ∃ flight, pulled s r = some flight ∧ written = reads ++ flight

theorem Pulled.inOrder {s : Send α} {r : Recv α} {written reads : List α}
    (link : Pulled s r written reads) :
    reads <+: written ∧ written.length ≤ reads.length + 2 := by
  obtain ⟨flight, is, rfl⟩ := link
  refine ⟨List.prefix_append _ _, ?_⟩
  have short : flight.length ≤ 2 := by
    cases s <;> cases r <;> simp [pulled] at is <;> subst is <;> simp
  simpa using short

theorem Pulled.step {s s' : Send α} {r r' : Recv α} {written reads : List α} {new : Option α}
    {d : α} {read : Bool} (link : Pulled s r written reads) (value : ∀ e, s = .offer e → d = e)
    (sender : Send.Step r.requests true new s s')
    (receiver : Recv.Step (!s.offers.isEmpty) d true read r r') :
    Pulled s' r' (written ++ new.toList) (reads ++ if read then r.held else []) := by
  obtain ⟨flight, is, rfl⟩ := link
  cases sender with
  | halt off => cases off
  | idle => cases receiver <;> simp_all [pulled, Pulled]
  | start => cases receiver <;> simp_all [pulled, Pulled]
  | await => cases receiver <;> simp_all [pulled, Pulled]
  | fill e =>
      cases receiver with
      | hold f =>
          obtain rfl : [f] = flight := by simpa [pulled] using is
          exact ⟨[f, e], rfl, by simp⟩
      | _ => simp_all [pulled, Pulled]
  | hold low e => cases receiver <;> simp_all [pulled, Pulled]
  | raise high e => cases receiver <;> simp_all [pulled, Pulled]
  | keep high e => cases receiver <;> simp_all [pulled, Pulled]
  | done low e => cases receiver <;> simp_all [pulled, Pulled]

/-! ## A sender that pushes and a receiver that answers -/

/-- The items in flight between a sender that makes the requests and a receiver. -/
def pushed : Push α → Recv α → Option (List α)
  | .ready, .off => some []
  | .ready, .want => some []
  | .want, .off => some []
  | .want, .want => some []
  | .full d, .off => some [d]
  | .full d, .want => some [d]
  | .offer d, .off => some [d]
  | .offer d, .want => some [d]
  | .offer _, .got e => some [e]
  | .offer _, .shake => some []
  | .rel, .shake => some []
  | .rel, .want => some []
  | _, _ => none

@[simp] def Push.offers : Push α → List α
  | .offer d => [d]
  | .ready => []
  | .want => []
  | .full _ => []
  | .rel => []

def Pushed (s : Push α) (r : Recv α) (written reads : List α) : Prop :=
  ∃ flight, pushed s r = some flight ∧ written = reads ++ flight

theorem Pushed.inOrder {s : Push α} {r : Recv α} {written reads : List α}
    (link : Pushed s r written reads) :
    reads <+: written ∧ written.length ≤ reads.length + 2 := by
  obtain ⟨flight, is, rfl⟩ := link
  refine ⟨List.prefix_append _ _, ?_⟩
  have short : flight.length ≤ 2 := by
    cases s <;> cases r <;> simp [pushed] at is <;> subst is <;> simp
  simpa using short

theorem Pushed.step {s s' : Push α} {r r' : Recv α} {written reads : List α} {new : Option α}
    {d : α} {read : Bool} (link : Pushed s r written reads) (value : ∀ e, s = .offer e → d = e)
    (sender : Push.Step r.acks new s s')
    (receiver : Recv.Step (!s.offers.isEmpty) d true read r r') :
    Pushed s' r' (written ++ new.toList) (reads ++ if read then r.held else []) := by
  obtain ⟨flight, is, rfl⟩ := link
  cases sender with
  | idle => cases receiver <;> simp_all [pushed, Pushed]
  | start => cases receiver <;> simp_all [pushed, Pushed]
  | await => cases receiver <;> simp_all [pushed, Pushed]
  | fill e => cases receiver <;> simp_all [pushed, Pushed]
  | raise e => cases receiver <;> simp_all [pushed, Pushed]
  | keep low e => cases receiver <;> simp_all [pushed, Pushed]
  | taken high e => cases receiver <;> simp_all [pushed, Pushed]
  | hold high => cases receiver <;> simp_all [pushed, Pushed]
  | done low => cases receiver <;> simp_all [pushed, Pushed]

end Interlock
