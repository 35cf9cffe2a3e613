import MiningClient.Session.Machine

namespace MiningClient.Session

/-- The keys of the later loads that none of the earlier ones has. -/
def Load.newKeys (before after : List Load) : List (Nat × Place) :=
  (after.map Load.key).filter fun k => !(before.map Load.key).contains k

structure Moment (σ : Type) where
  machine : Machine σ
  event : Event

namespace Moment
variable {σ : Type}

def isReset (t : Moment σ) : Bool :=
  match t.event with
  | .reset => true
  | _ => false

def begins (id : Nat) (t : Moment σ) : Bool :=
  match t.event with
  | .start _ _ => id == t.machine.nextTask && t.machine.core.mayBegin
  | _ => false

def polls (id : Nat) (t : Moment σ) : Bool :=
  match t.event with
  | .pollRun run _ _ => id == run && t.machine.runs.any (·.id == id)
  | _ => false

def itemsReply? (id : Nat) (t : Moment σ) : Option ItemsReply :=
  match t.event with
  | .start items _ => if t.begins id then items else none
  | .pollRun _ items _ => if t.polls id then items else none
  | _ => none

/-- The reply to the account fetch, which is not made when the item fetch fails at once. -/
def accountReply? (id : Nat) (t : Moment σ) : Option AccountReply :=
  match t.event with
  | .start items account => if t.begins id && (errorOf? items).isNone then account else none
  | .pollRun _ _ account => if t.polls id then account else none
  | _ => none

variable [Slot σ]

def next (t : Moment σ) : Machine σ := (t.machine.step t.event).1

def effects (t : Moment σ) : List Effect := (t.machine.step t.event).2

/-- The loads that the moment starts: those that are going on after it and were not before. -/
def started (t : Moment σ) : List (Nat × Place) := Load.newKeys t.machine.loads t.next.loads

end Moment

namespace Machine
variable {σ : Type}

def fresh (credentials : Credentials σ) : Machine σ := { credentials }

variable [Slot σ]

def after (m : Machine σ) (es : List Event) : Machine σ := es.foldl (fun m e => (m.step e).1) m

def trace (m : Machine σ) : List Event → List (Moment σ)
  | [] => []
  | e :: es => ⟨m, e⟩ :: (m.step e).1.trace es

def effects (m : Machine σ) (es : List Event) : List Effect := (m.trace es).flatMap Moment.effects

@[simp] theorem after_nil (m : Machine σ) : m.after [] = m := rfl

@[simp] theorem after_cons (m : Machine σ) (e : Event) (es : List Event) :
    m.after (e :: es) = (m.step e).1.after es := rfl

@[simp] theorem effects_nil (m : Machine σ) : m.effects [] = [] := rfl

@[simp] theorem effects_cons (m : Machine σ) (e : Event) (es : List Event) :
    m.effects (e :: es) = (m.step e).2 ++ (m.step e).1.effects es := rfl

theorem after_keeps {P : Machine σ → Prop} (h : ∀ m e, P m → P (m.step e).1) {m : Machine σ}
    (hm : P m) (es : List Event) : P (m.after es) := by
  induction es generalizing m with
  | nil => exact hm
  | cons e es ih => exact ih (h m e hm)

end Machine

namespace Effect

def fetch? : Effect → Option Endpoint
  | fetched endpoint => some endpoint
  | _ => none

/-- The call that returned after it published the first screen. -/
def opened? : Effect → Option Nat
  | finished task (.run (.ok .initialized)) => some task
  | _ => none

end Effect
end MiningClient.Session
