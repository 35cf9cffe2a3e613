import MiningClient.Rpc.Channel

namespace MiningClient

namespace Call
variable {β : Type}

def Fails (c : Call β) (e : Error) : Prop := ∀ network, c.run network = (.error e, [])

/-- The call makes this request and no other, and depends on the answer to it alone. -/
def Sends (c : Call β) (request : Request) : Prop :=
  ∀ network, (c.run network).2 = [request] ∧ ∀ network' : Request → Exchange,
    network' request = network request → c.run network' = c.run network

theorem refused_fails (e : Error) : (refused e : Call β).Fails e := fun _ => rfl

theorem sent_sends (request : Request) (finish : Exchange → Except Error β) :
    (sent request finish).Sends request := by
  intro network
  refine ⟨rfl, fun network' same => ?_⟩
  rw [run, run, same]

end Call

namespace Channel

/-- The interceptors let a request through, and these are the requests that they make of it, one after
the other. -/
inductive Passes : List Interceptor → Request → List Request → Prop
  | nil (r : Request) : Passes [] r []
  | cons {i : Interceptor} {is : List Interceptor} {r r' : Request} {rs : List Request}
    (lets : i r = .ok r') (rest : Passes is r' rs) : Passes (i :: is) r (r' :: rs)

/-- The interceptor refuses what those before it let through. -/
inductive Refuses (before : List Interceptor) (i : Interceptor) (r : Request) (e : Error) : Prop
  | intro {rs : List Request} (passes : Passes before r rs) (refuses : i (rs.getLastD r) = .error e)

section Intercept
variable {is before : List Interceptor} {i : Interceptor} {r : Request} {e : Error}

theorem intercept_of_passes {rs : List Request} (h : Passes is r rs) :
    intercept is r = .ok (rs.getLastD r) := by
  induction h with
  | nil => rfl
  | cons lets _ ih =>
    rw [intercept, lets, List.getLastD_cons]
    exact ih

theorem intercept_append {rs : List Request} (h : Passes before r rs) (later : List Interceptor) :
    intercept (before ++ later) r = intercept later (rs.getLastD r) := by
  induction h with
  | nil => rfl
  | cons lets _ ih =>
    rw [List.cons_append, intercept, lets, List.getLastD_cons]
    exact ih

/-- Those behind the first refusal do not matter. -/
theorem intercept_of_refuses (h : Refuses before i r e) (later : List Interceptor) :
    intercept (before ++ i :: later) r = .error e := by
  obtain ⟨passes, refuses⟩ := h
  rw [intercept_append passes, intercept, refuses]

theorem passes_or_refuses (is : List Interceptor) (r : Request) :
    (∃ rs, Passes is r rs) ∨ ∃ before i later e, is = before ++ i :: later ∧ Refuses before i r e := by
  induction is generalizing r with
  | nil => exact .inl ⟨[], .nil r⟩
  | cons i is ih =>
    cases first : i r with
    | error e => exact .inr ⟨[], i, is, e, rfl, .intro (.nil r) first⟩
    | ok r' =>
      -- The induction is on the interceptors, with the request that has come so far.
      obtain ⟨rs, passes⟩ | ⟨before, j, later, e, rfl, passes, refuses⟩ := ih r'
      · exact .inl ⟨r' :: rs, .cons first passes⟩
      · refine .inr ⟨i :: before, j, later, e, rfl, .intro (.cons first passes) ?_⟩
        rw [List.getLastD_cons]
        exact refuses

end Intercept

section Timeouts

/-- The timeouts that are set on the way, each where it is not the one before. -/
def timeoutsSet : Option Nat → List Request → List (Option Nat)
  | _, [] => []
  | now, r :: rs => (if r.timeout = now then [] else [r.timeout]) ++ timeoutsSet r.timeout rs

theorem timeout_getLastD (r : Request) (rs : List Request) :
    (rs.getLastD r).timeout = (timeoutsSet r.timeout rs).getLastD r.timeout := by
  induction rs generalizing r with
  | nil => rfl
  | cons r' rs ih =>
    rw [List.getLastD_cons, ih, timeoutsSet]
    split
    -- A request with the timeout of the one before sets none.
    · rename_i kept
      rw [List.nil_append, kept]
    · rw [List.singleton_append, List.getLastD_cons]

end Timeouts

section Build

inductive Part
  | interceptor (i : Interceptor)
  | timeout (time : Nat)

def Part.interceptor? : Part → Option Interceptor
  | interceptor i => some i
  | timeout _ => none

def Part.timeout? : Part → Option Nat
  | interceptor _ => none
  | timeout time => some time

def add (ch : Channel) : Part → Channel
  | .interceptor i => ch.withInterceptor i
  | .timeout time => ch.withTimeout time

def build (service : String) (parts : List Part) : Channel := parts.foldl add { service }

theorem foldl_add (parts : List Part) (ch : Channel) :
    parts.foldl add ch =
      { service := ch.service
        interceptors := ch.interceptors ++ parts.filterMap Part.interceptor?
        timeout := (parts.filterMap Part.timeout?).getLast?.or ch.timeout } := by
  -- The channel at hand has the parts that came before.
  induction parts generalizing ch with
  | nil => simp
  | cons part parts ih =>
    rw [List.foldl_cons, ih]
    cases part with
    | interceptor i => simp [add, withInterceptor, Part.interceptor?, Part.timeout?]
    | timeout time =>
      have skipped : (Part.timeout time :: parts).filterMap Part.interceptor? =
          parts.filterMap Part.interceptor? := List.filterMap_cons_none rfl
      have kept : (Part.timeout time :: parts).filterMap Part.timeout? =
          time :: parts.filterMap Part.timeout? := List.filterMap_cons_some rfl
      have last : (time :: parts.filterMap Part.timeout?).getLast? =
          (parts.filterMap Part.timeout?).getLast?.or (some time) := by
        rw [List.getLast?_cons, Option.or_some]
      rw [skipped, kept, last, Option.or_assoc]
      rfl

theorem build_eq (service : String) (parts : List Part) :
    build service parts =
      { service
        interceptors := parts.filterMap Part.interceptor?
        timeout := (parts.filterMap Part.timeout?).getLast? } := by
  rw [build, foldl_add, List.nil_append, Option.or_none]

end Build

section Calls
variable {α : Type} [Wire.Message α] (β : Type) [Wire.Message β] {ch : Channel} {method : String} {m : α}

theorem unary_fails {e : Error} (h : ch.prepare method m = .error e) :
    (ch.unary β method m).Fails e := by
  rw [unary, h]
  exact Call.refused_fails e

theorem streaming_fails {e : Error} (h : ch.prepare method m = .error e) :
    (ch.streaming β method m).Fails e := by
  rw [streaming, h]
  exact Call.refused_fails e

theorem unary_sends {r : Request} (h : ch.prepare method m = .ok r) :
    (ch.unary β method m).Sends { r with timeout := ch.timeout } := by
  rw [unary, h]
  exact Call.sent_sends _ _

theorem streaming_sends {r : Request} (h : ch.prepare method m = .ok r) :
    (ch.streaming β method m).Sends r := by
  rw [streaming, h]
  exact Call.sent_sends _ _

end Calls

/-- A call gives its first request to the interceptors in the order in which they were added. Either all
let it through, or there is a first that refuses. Then the call fails with that error and sends nothing,
whatever interceptors come after it. Else the call sends what they made of the request, once, with the
channel's timeout if it is for one message, and with the last timeout that they set if it is a streaming
one. -/
theorem calls_intercepted {α : Type} [Wire.Message α] (β : Type) [Wire.Message β] (service : String)
    (parts : List Part) (method : String) (m : α) :
    let interceptors := parts.filterMap Part.interceptor?
    let unary := (build service parts).unary β method m
    let streaming := (build service parts).streaming β method m
    let first : Request :=
      { path := "/" ++ service ++ "/" ++ method
        metadata := ∅
        body := Frame.ofMessage m
        timeout := none }
    ((∃ rs, Passes interceptors first rs) ∨
      ∃ before i later e, interceptors = before ++ i :: later ∧ Refuses before i first e) ∧
    (∀ before i e, Refuses before i first e → ∀ later, interceptors = before ++ i :: later →
      unary.Fails e ∧ streaming.Fails e) ∧
    ∀ rs, Passes interceptors first rs →
      unary.Sends { rs.getLastD first with timeout := (parts.filterMap Part.timeout?).getLast? } ∧
      streaming.Sends (rs.getLastD first) ∧
      (rs.getLastD first).timeout = (timeoutsSet none rs).getLastD none := by
  intro interceptors unary streaming first
  have prepared : (build service parts).prepare method m = intercept interceptors first := by
    rw [build_eq]
    rfl
  refine ⟨passes_or_refuses interceptors first, ?_, ?_⟩
  · intro before i e refuses later split
    have failed : (build service parts).prepare method m = .error e := by
      rw [prepared, split]
      exact intercept_of_refuses refuses later
    exact ⟨unary_fails β failed, streaming_fails β failed⟩
  · intro rs passes
    have passed := prepared.trans (intercept_of_passes passes)
    have sends := unary_sends β passed
    have timeout : (build service parts).timeout = (parts.filterMap Part.timeout?).getLast? := by
      rw [build_eq]
    rw [timeout] at sends
    -- Only the call for one message puts the timeout of the channel in place of that of the request.
    exact ⟨sends, streaming_sends β passed, timeout_getLastD first rs⟩

end Channel
end MiningClient
