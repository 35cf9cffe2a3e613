import MiningClient.App.Clock

namespace MiningClient.App
variable {σ : Type} [Slot σ]

def setToken (w : App σ) (token : String) : Except Error Unit × App σ :=
  let (result, credentials) := w.machine.credentials.set token
  (result, { w with machine := { w.machine with credentials } })

/-- Forgets the token alone. -/
def clearToken (w : App σ) : Except Error Unit × App σ :=
  let (result, credentials) := w.machine.credentials.clear
  (result, { w with machine := { w.machine with credentials } })

def isLoggedIn (w : App σ) : Bool := w.machine.credentials.isAuthenticated

def obtainToken (w : App σ) (c : Call String) : Option (Except Error Unit × App σ) :=
  (w.call c).map fun (result, w) =>
    match result with
    | .error e => (.error e, w)
    | .ok token => w.setToken token

def login (w : App σ) (username password : String) : Option (Except Error Unit × App σ) :=
  w.obtainToken ((w.client.login ⟨username, password⟩).map (·.map (·.sessionToken)))

def register (w : App σ) (username password : String) : Option (Except Error Unit × App σ) :=
  w.obtainToken ((w.client.register ⟨username, password⟩).map (·.map (·.sessionToken)))

def logout (w : App σ) : Except Error Unit × App σ :=
  let (result, machine) := w.machine.reset
  (result, { w with machine })

end MiningClient.App
