import HeaterLink.Proofs.Reassembly.Gathering

/-!
# Framing undone

A frame is the magic bytes, the code of a kind and as many payload bytes as the
code asks for. The radio may cut it anywhere behind its header, so fragments can
be empty and can open with the magic bytes of a header that is none. However the
frames of a list of messages are cut, a reassembler that keeps repeats gives every
message back once and in order, whatever it was fed before.
-/

set_option autoImplicit false

namespace HeaterLink

structure Message (t : LengthTable) where
  kind : MessageKind
  payload : Bytes
  content : kind ≠ .none
  exact : payload.length = t.payloadLength kind

namespace Message

variable {t : LengthTable}

def frame (m : Message t) : Bytes := magic ++ t.code m.kind :: m.payload

def completion (m : Message t) : Completion :=
  if m.kind = .status then .status m.payload else .other m.kind

structure Cut (m : Message t) where
  first : Bytes
  later : List Bytes
  whole : first ++ later.flatten = m.frame
  header : headerLength ≤ first.length
  inside : ∀ data ∈ later, t.isHeader data = false

def Cut.inputs {m : Message t} (cut : m.Cut) : List Reassembler.Input :=
  (cut.first :: cut.later).map .fragment

def stream (sent : List ((m : Message t) × m.Cut)) : List Reassembler.Input :=
  sent.flatMap fun s => s.2.inputs

theorem completion_eq (m : Message t) : t.completion m.kind m.payload = m.completion := by
  unfold LengthTable.completion completion
  split
  · rename_i hs
    rw [List.take_of_length_le (Nat.le_of_eq (by rw [m.exact, hs]))]
  · rfl

theorem Cut.opens {m : Message t} (cut : m.Cut) :
    ∃ payload, cut.first = magic ++ t.code m.kind :: payload ∧
      payload ++ cut.later.flatten = m.payload := by
  have hlen : (magic ++ [t.code m.kind]).length ≤ cut.first.length := cut.header
  have hwhole : cut.first ++ cut.later.flatten = (magic ++ [t.code m.kind]) ++ m.payload := by
    rw [cut.whole, frame, List.append_assoc, List.singleton_append]
  obtain ⟨payload, hfirst⟩ : magic ++ [t.code m.kind] <+: cut.first :=
    List.prefix_of_prefix_length_le ⟨m.payload, hwhole.symm⟩ ⟨_, rfl⟩ hlen
  refine ⟨payload, ?_, ?_⟩
  · rw [← hfirst, List.append_assoc, List.singleton_append]
  · rw [← hfirst, List.append_assoc] at hwhole
    exact List.append_cancel_left hwhole

end Message

theorem LengthTable.kindOf?_code {t : LengthTable} (distinct : Function.Injective t.code)
    (k : MessageKind) : t.kindOf? (t.code k) = some k := by
  cases h : t.kindOf? (t.code k) with
  | none => cases k <;> simp [kindOf?, MessageKind.all] at h
  | some j => rw [distinct (code_of_kindOf? h)]

namespace Reassembler

def Idle (r : Reassembler) : Prop := r.active = .none ∧ r.received = 0

theorem finish_idle {r : Reassembler} {c : Completion} (h : r.finish.2 = some c) :
    r.finish.1.Idle := by
  unfold finish at h ⊢
  split at h
  · cases h
  · exact ⟨rfl, rfl⟩

theorem feed_idle {r : Reassembler} {data : Bytes} {c : Completion}
    (h : (r.feed data).2 = some c) : (r.feed data).1.Idle := by
  unfold feed at h ⊢
  split at h
  · exact finish_idle h
  · split at h
    · cases h
    · rename_i ha
      rw [if_neg ha]
      exact finish_idle h
  · dsimp only at h ⊢
    split at h
    · cases h
    · rename_i ha
      rw [if_neg ha]
      exact finish_idle h

theorem feed_nil {r : Reassembler} (h : r.active = .none) : r.feed [] = (r, none) := by
  simp [feed, classify_nil, h]

def completions (r : Reassembler) (inputs : List Input) : List Completion :=
  (r.run inputs).2.filterMap id

theorem completions_append (r : Reassembler) (first later : List Input) :
    r.completions (first ++ later) = r.completions first ++ (r.run first).1.completions later := by
  rw [completions, run_append, List.filterMap_append]
  rfl

theorem completions_fragment (r : Reassembler) (data : Bytes) (rest : List Input) :
    r.completions (.fragment data :: rest) =
      (r.feed data).2.toList ++ (r.feed data).1.completions rest := by
  show ((r.feed data).2 :: ((r.feed data).1.run rest).2).filterMap id = _
  cases (r.feed data).2 <;> rfl

variable {t : LengthTable} {r : Reassembler}

theorem feed_opening (distinct : Function.Injective t.code) (table : r.table = t)
    (k : MessageKind) (payload : Bytes) :
    r.feed (magic ++ t.code k :: payload) = (r.start k payload).finish := by
  rw [feed, table, classify_message, LengthTable.kindOf?_code distinct]

/-- The rest of a message that was looked at with `g` gathered. It may be settled by
then, and in that case only empty fragments are left. -/
theorem run_rest {g : Gathering} (table : r.table = t) (fitted : r.Fitted)
    (keeps : r.dropRepeats = false) (content : g.kind ≠ .none) (holds : r.Holds (g.settle t).1)
    (idle : ∀ c, (g.settle t).2 = some c → r.Idle)
    (later : List Bytes) (inside : ∀ data ∈ later, t.isHeader data = false)
    (exact : (g.bytes ++ later.flatten).length = t.payloadLength g.kind) :
    (r.run (later.map .fragment)).1.Idle ∧
      (g.settle t).2.toList ++ r.completions (later.map .fragment) =
        [t.completion g.kind (g.bytes ++ later.flatten)] := by
  induction later generalizing r g with
  | nil =>
    rw [List.flatten_nil, List.append_nil] at exact ⊢
    have hfull : g.settle t = (none, some (t.completion g.kind g.bytes)) :=
      Gathering.settle_full (Nat.le_of_eq exact.symm)
    rw [hfull] at idle ⊢
    exact ⟨idle _ rfl, rfl⟩
  | cons data rest ih =>
    have inside' : ∀ d ∈ rest, t.isHeader d = false := fun d hd => inside d (by simp [hd])
    rw [List.flatten_cons, ← List.append_assoc] at exact ⊢
    rw [List.map_cons, completions_fragment]
    rcases Nat.lt_or_ge g.bytes.length (t.payloadLength g.kind) with hshort | hfull
    · have hopen : g.settle t = (some g, none) := Gathering.settle_short content hshort
      rw [hopen] at holds ⊢
      obtain ⟨hholds, hdone⟩ := feed_gathering fitted holds data
      rw [table, keeps, Gathering.feed_later (inside data (by simp)), Option.map_some,
        Option.elim_some, Gathering.add_keep] at hholds hdone
      rw [hdone]
      exact ih (g := ⟨g.kind, g.bytes ++ data, data⟩) ((feed_table r data).trans table)
        (feed_fitted fitted data) ((feed_dropRepeats r data).trans keeps) content hholds
        (fun c hc => feed_idle (hdone.trans hc)) inside' exact
    · -- The payload is whole, so nothing but empty fragments can come behind it.
      have hdata : data = [] := by
        rw [List.append_assoc, List.length_append, List.length_append] at exact
        exact List.length_eq_zero_iff.mp (by omega)
      subst hdata
      have hsettled : g.settle t = (none, some (t.completion g.kind g.bytes)) :=
        Gathering.settle_full hfull
      have hr : r.Idle := idle _ (by rw [hsettled])
      rw [show r.run (.fragment [] :: rest.map .fragment) =
          (((r.feed []).1.run (rest.map .fragment)).1, _) from rfl, feed_nil hr.1]
      rw [List.append_nil] at exact ⊢
      exact ih table fitted keeps content holds idle inside' exact

theorem run_cut (distinct : Function.Injective t.code) (table : r.table = t) (fitted : r.Fitted)
    (keeps : r.dropRepeats = false) (m : Message t) (cut : m.Cut) :
    (r.run cut.inputs).1.Idle ∧ r.completions cut.inputs = [m.completion] := by
  obtain ⟨payload, hfirst, hpayload⟩ := cut.opens
  have hfeed : r.feed cut.first = (r.start m.kind payload).finish :=
    hfirst ▸ feed_opening distinct table m.kind payload
  have htable : (r.start m.kind payload).table = t := by
    rw [start, extend_table]
    exact table
  obtain ⟨hholds, hdone⟩ :=
    finish_gathering (start_fitted fitted m.kind payload) (start_carries r m.kind payload)
  rw [← hfeed, htable] at hholds hdone
  have hrest := run_rest ((feed_table r cut.first).trans table) (feed_fitted fitted cut.first)
    ((feed_dropRepeats r cut.first).trans keeps) m.content hholds
    (fun c hc => feed_idle (hdone.trans hc)) cut.later cut.inside (by rw [hpayload, m.exact])
  rw [hpayload, m.completion_eq, ← hdone, ← completions_fragment] at hrest
  exact hrest

theorem run_stream (distinct : Function.Injective t.code) (table : r.table = t)
    (fitted : r.Fitted) (keeps : r.dropRepeats = false)
    (sent : List ((m : Message t) × m.Cut)) :
    (sent ≠ [] → (r.run (Message.stream sent)).1.Idle) ∧
      r.completions (Message.stream sent) = sent.map fun s => s.1.completion := by
  induction sent generalizing r with
  | nil => exact ⟨fun h => absurd rfl h, rfl⟩
  | cons s rest ih =>
    obtain ⟨hidle, hdone⟩ := run_cut distinct table fitted keeps s.1 s.2
    obtain ⟨ht, hd, hf⟩ := run_fields r s.2.inputs
    obtain ⟨hidle', hdone'⟩ := ih (ht.trans table) (hf fitted) (hd.trans keeps)
    have hstream : Message.stream (s :: rest) = s.2.inputs ++ Message.stream rest := rfl
    rw [hstream, run_append, completions_append, hdone, hdone']
    refine ⟨fun _ => ?_, rfl⟩
    cases rest with
    | nil => exact hidle
    | cons s' rest' => exact hidle' (by simp)

/-- From every state that a new reassembler can reach: each message comes back once, in
order and whole, nothing is in progress behind it, and the cuts make no difference. -/
theorem framing_undone {t : LengthTable} (distinct : Function.Injective t.code)
    (before : List Input) (sent : List ((m : Message t) × m.Cut)) :
    let r := ((new t false).run before).1
    r.completions (Message.stream sent) = sent.map (fun s => s.1.completion) ∧
      (∀ n, 0 < n → n ≤ sent.length → (r.run (Message.stream (sent.take n))).1.Idle) ∧
      ∀ others : List ((m : Message t) × m.Cut), others.map Sigma.fst = sent.map Sigma.fst →
        r.completions (Message.stream others) = r.completions (Message.stream sent) := by
  intro r
  obtain ⟨table, keeps, fitted⟩ := run_fields (new t false) before
  have messages (sent : List ((m : Message t) × m.Cut)) :=
    run_stream (r := r) distinct table (fitted (new_fitted t false)) keeps sent
  refine ⟨(messages sent).2, fun n hn hlen => ?_, fun others h => ?_⟩
  · refine (messages (sent.take n)).1 fun hnil => ?_
    have := congrArg List.length hnil
    rw [List.length_take, List.length_nil] at this
    omega
  · rw [(messages others).2, (messages sent).2]
    simpa [Function.comp_def] using congrArg (List.map Message.completion) h

def lookalike : Message ⟨2, 7, 4, 1⟩ :=
  ⟨.status, magic ++ [9, 5], by decide, by decide⟩

def lookalikeCut : lookalike.Cut where
  first := magic ++ [7]
  later := [magic ++ [9], [], [5]]
  whole := by decide
  header := by decide
  inside := by decide

def receipt : Message ⟨2, 7, 4, 1⟩ :=
  ⟨.acknowledge, [1], by decide, by decide⟩

def receiptCut : receipt.Cut where
  first := magic ++ [2]
  later := [[1], []]
  whole := by decide
  header := by decide
  inside := by decide

/-- Behind a schedule that was never finished. -/
theorem framing_undone_lookalike :
    let r := ((new ⟨2, 7, 4, 1⟩ false).run [.fragment (magic ++ [4]), .fragment [8]]).1
    let sent := [⟨lookalike, lookalikeCut⟩, ⟨receipt, receiptCut⟩]
    Function.Injective (LengthTable.mk 2 7 4 1).code ∧
      r.completions (Message.stream sent) = [.status (magic ++ [9, 5]), .other .acknowledge] ∧
      (r.run (Message.stream (sent.take 1))).1.Idle := by
  have distinct : Function.Injective (LengthTable.mk 2 7 4 1).code := by
    intro j k
    cases j <;> cases k <;> decide
  have undone := framing_undone distinct [.fragment (magic ++ [4]), .fragment [8]]
    [⟨lookalike, lookalikeCut⟩, ⟨receipt, receiptCut⟩]
  exact ⟨distinct, undone.1, undone.2.1 1 (by decide) (by decide)⟩

end Reassembler

end HeaterLink
