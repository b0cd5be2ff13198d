import HeaterLink.Text.CaseTable

/-!
# Upper case

The upper-case form of a text, letter by letter. A letter may become several,
and one without an upper-case form stays.
-/

set_option autoImplicit false

namespace HeaterLink.Text

def upperCode (code : Nat) : List Nat :=
  if code < 128 then
    if 97 ≤ code ∧ code ≤ 122 then [code - 32] else [code]
  else
    match expansions.lookup code with
    | some codes => codes
    | none =>
      match caseRuns.find? (·.covers code) with
      | some run => [(code + run.shift).toNat]
      | none => [code]

def upperCase (s : String) : String :=
  String.ofList (s.toList.flatMap fun c => (upperCode c.toNat).map Char.ofNat)

end HeaterLink.Text
