import HeaterLink.Proofs.Reassembly.Forgetting

/-!
# Fragments that are delivered again

The radio may deliver a fragment more than once. A reassembler that drops
repeats does not mind, in a status message and outside of any: a copy right
behind its fragment is dropped or ignored, also when the fragment itself was, and
when it was the last of its message. Nothing but the count of malformed headers
shows that it came.
-/

set_option autoImplicit false

namespace HeaterLink

namespace Reassembler

/-- The second stream is the first one with copies of fragments that are no headers. They stand
right behind their fragment, which finds a status message in progress or none. -/
inductive Redelivers : Reassembler → List Input → List Input → Prop
  | nil {r : Reassembler} : Redelivers r [] []
  | once {r : Reassembler} {i : Input} {rest rest' : List Input} :
      Redelivers (r.step i).1 rest rest' → Redelivers r (i :: rest) (i :: rest')
  | again {r : Reassembler} {data : Bytes} {n : Nat} {rest rest' : List Input} :
      r.table.isHeader data = false → r.active = .status ∨ r.active = .none →
      Redelivers (r.step (.fragment data)).1 rest rest' →
      Redelivers r (.fragment data :: rest)
        (.fragment data :: (List.replicate n (.fragment data) ++ rest'))

variable {r q : Reassembler} {data : Bytes} {before : Input} {inputs inputs' : List Input}

theorem feed_active_later (hd : r.table.isHeader data = false) :
    (r.feed data).1.active = r.active ∨ (r.feed data).1.active = .none := by
  obtain ⟨n, hfeed⟩ := r.feed_inside hd
  rw [hfeed]
  split
  · exact .inl rfl
  · unfold finish
    split
    · exact .inl (extend_active _ _)
    · exact .inr rfl

theorem feed_copy (fitted : r.Fitted) (remembers : r.Remembers (.fragment data))
    (hd : r.table.isHeader data = false) (open_or_idle : r.active = .status ∨ r.active = .none) :
    Alike r (r.feed data).1 ∧ (r.feed data).2 = none := by
  obtain ⟨n, hfeed⟩ := r.feed_inside hd
  have counted : Alike r { r with malformed := n } := (alike_refl fitted).counted r.malformed n
  rw [hfeed]
  rcases open_or_idle with ha | idle
  · obtain ⟨b, e, brought⟩ := remembers.brought ha
    obtain rfl := Input.fragment.inj e
    have last : r.last = some data := by rw [brought.last, LengthTable.body_later hd]
    have dropped := extend_dropped (r := { r with malformed := n }) ha remembers.drops last
    have short := finish_short (r := { r with malformed := n }) ha (remembers.short ha)
    rw [if_neg (by simp [ha]), dropped, short]
    exact ⟨counted, rfl⟩
  · rw [if_pos idle]
    exact ⟨counted, rfl⟩

theorem run_copies (fitted : r.Fitted) (remembers : r.Remembers (.fragment data))
    (hd : r.table.isHeader data = false) (open_or_idle : r.active = .status ∨ r.active = .none)
    (copies : Nat) :
    Alike r (r.run (List.replicate copies (.fragment data))).1 ∧
      r.completions (List.replicate copies (.fragment data)) = [] := by
  induction copies generalizing r with
  | zero => exact ⟨alike_refl fitted, rfl⟩
  | succ n ih =>
    obtain ⟨alike, quiet⟩ := feed_copy fitted remembers hd open_or_idle
    obtain ⟨behind, none⟩ := ih alike.fitted.2 (remembers.step (.fragment data))
      (alike.table.symm ▸ hd) (alike.active.symm ▸ open_or_idle)
    rw [List.replicate_succ, completions_fragment, quiet, none]
    exact ⟨alike.trans behind, rfl⟩

theorem Alike.completions_eq (h : Alike r q) (inputs : List Input) :
    q.completions inputs = r.completions inputs := by
  rw [completions, completions, (h.runs inputs).2]

/-- A reassembler that drops repeats completes the same with the copies and without them, and is in
the middle of the same message behind them. -/
theorem Redelivers.alike (h : Redelivers r inputs inputs') (fitted : r.Fitted)
    (remembers : r.Remembers before) :
    Alike (r.run inputs).1 (r.run inputs').1 ∧ r.completions inputs' = r.completions inputs := by
  -- The induction is on the stream without the copies. Behind copies the rest is fed to a
  -- reassembler that is only alike, so what is known of the rest is carried over.
  induction h generalizing before with
  | nil => exact ⟨alike_refl fitted, rfl⟩
  | @once r i rest rest' _ ih =>
    obtain ⟨alike, same⟩ := ih ((step_fields r i).2.2 fitted) (remembers.step i)
    rw [completions_cons, completions_cons, same]
    exact ⟨alike, rfl⟩
  | @again r data n rest rest' hd open_or_idle _ ih =>
    obtain ⟨table, -, keeps⟩ := step_fields r (.fragment data)
    obtain ⟨alike, same⟩ := ih (keeps fitted) (remembers.step (.fragment data))
    have still : (r.step (.fragment data)).1.active = .status ∨
        (r.step (.fragment data)).1.active = .none := by
      rcases feed_active_later hd with e | e
      · exact open_or_idle.imp e.trans e.trans
      · exact .inr e
    obtain ⟨behind, none⟩ := run_copies (keeps fitted) (remembers.step (.fragment data))
      (table.symm ▸ hd) still n
    rw [completions_cons, completions_cons, completions_append, none, behind.completions_eq, same]
    refine ⟨?_, rfl⟩
    show Alike ((r.step (.fragment data)).1.run rest).1
      ((r.step (.fragment data)).1.run (List.replicate n (.fragment data) ++ rest')).1
    rw [run_append]
    exact alike.trans (behind.runs rest').1

/-- With repeats dropped, redelivery does no harm: from every state that was reached, the stream
with the copies completes the same messages as the stream without them, and behind it the same
message is in progress with as many bytes counted. -/
theorem redelivery_harmless (t : LengthTable) (past inputs inputs' : List Input)
    (again : ((new t true).run past).1.Redelivers inputs inputs') :
    let r := ((new t true).run past).1
    r.completions inputs' = r.completions inputs ∧
      (r.run inputs').1.active = (r.run inputs).1.active ∧
      (r.run inputs').1.received = (r.run inputs).1.received := by
  intro r
  obtain ⟨-, -, fitted⟩ := run_fields (new t true) past
  obtain ⟨before, remembers⟩ := (new_remembers t).run past
  obtain ⟨alike, same⟩ := again.alike (fitted (new_fitted t true)) remembers
  exact ⟨same, alike.active, alike.received⟩

/-- In the middle of a status, a fragment that is a repeat already comes twice more, a malformed
header once more, and the fragment that ends the message once more. -/
theorem redelivery_harmless_midway :
    let t : LengthTable := ⟨2, 9, 149, 1⟩
    let past : List Input := [.fragment (magic ++ [9, 1]), .fragment [2]]
    let inputs : List Input := [.fragment [2], .fragment (magic ++ [7]), .fragment [3]]
    let inputs' : List Input := [.fragment [2], .fragment [2], .fragment [2],
      .fragment (magic ++ [7]), .fragment (magic ++ [7]), .fragment [3], .fragment [3]]
    let r := ((new t true).run past).1
    r.Redelivers inputs inputs' ∧
      r.completions inputs = [.status [1, 2, 170, 170, 170, 170, 7, 3]] ∧
      r.completions inputs' = r.completions inputs := by
  have again : Redelivers
      ((new ⟨2, 9, 149, 1⟩ true).run [.fragment (magic ++ [9, 1]), .fragment [2]]).1
      [.fragment [2], .fragment (magic ++ [7]), .fragment [3]]
      [.fragment [2], .fragment [2], .fragment [2], .fragment (magic ++ [7]),
        .fragment (magic ++ [7]), .fragment [3], .fragment [3]] :=
    .again (n := 2) (by decide) (by decide) <| .again (n := 1) (by decide) (by decide) <|
      .again (n := 1) (by decide) (by decide) .nil
  exact ⟨again, by decide, (redelivery_harmless _ _ _ _ again).1⟩

end Reassembler

end HeaterLink
