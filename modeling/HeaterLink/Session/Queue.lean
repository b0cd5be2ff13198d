/-!
# The queue for the link

One call at a time holds the link. Calls that want it wait in the order in
which they came, and a release hands the link directly to the first of them.
-/

set_option autoImplicit false

namespace HeaterLink

abbrev CallId := Nat

structure LinkQueue where
  holder : Option CallId
  waiting : List CallId
  deriving DecidableEq, Repr

namespace LinkQueue

def idle : LinkQueue := ⟨none, []⟩

def join (q : LinkQueue) (c : CallId) : LinkQueue :=
  match q.holder with
  | none => { q with holder := some c }
  | some _ => { q with waiting := q.waiting ++ [c] }

def leave (q : LinkQueue) (c : CallId) : LinkQueue :=
  { q with waiting := q.waiting.filter (· ≠ c) }

def release (q : LinkQueue) : LinkQueue :=
  match q.waiting with
  | [] => idle
  | c :: rest => ⟨some c, rest⟩

end LinkQueue

end HeaterLink
