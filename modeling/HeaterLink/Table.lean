/-!
# Tables

A finite table from keys to values. Entries stay in the order in which their
keys first came, and no key comes twice.
-/

set_option autoImplicit false

namespace HeaterLink

abbrev Table (κ α : Type) := List (κ × α)

namespace Table

variable {κ α : Type} [DecidableEq κ]

def get? (t : Table κ α) (k : κ) : Option α :=
  match t with
  | [] => none
  | (k', a) :: rest => if k' = k then some a else get? rest k

def insert (t : Table κ α) (k : κ) (a : α) : Table κ α :=
  match t with
  | [] => [(k, a)]
  | (k', a') :: rest => if k' = k then (k, a) :: rest else (k', a') :: insert rest k a

def erase (t : Table κ α) (k : κ) : Table κ α :=
  match t with
  | [] => []
  | (k', a) :: rest => if k' = k then erase rest k else (k', a) :: erase rest k

def keys (t : Table κ α) : List κ := t.map Prod.fst

def modify (t : Table κ α) (k : κ) (f : α → α) : Table κ α :=
  match t with
  | [] => []
  | (k', a) :: rest => if k' = k then (k', f a) :: rest else (k', a) :: modify rest k f

@[simp]
theorem get?_nil (k : κ) : get? ([] : Table κ α) k = none := rfl

theorem get?_insert (t : Table κ α) (k j : κ) (a : α) :
    get? (insert t k a) j = if k = j then some a else get? t j := by
  induction t with
  | nil => rfl
  | cons e rest ih =>
    obtain ⟨k', a'⟩ := e
    by_cases hk : k' = k
    · subst hk
      by_cases hj : k' = j <;> simp [insert, get?, hj]
    · by_cases hj : k' = j
      · subst hj
        simp [insert, get?, hk, Ne.symm hk]
      · simp [insert, get?, hk, hj, ih]

theorem get?_erase (t : Table κ α) (k j : κ) :
    get? (erase t k) j = if k = j then none else get? t j := by
  induction t with
  | nil => simp [erase]
  | cons e rest ih =>
    obtain ⟨k', a⟩ := e
    by_cases hk : k' = k
    · subst hk
      by_cases hj : k' = j
      · subst hj
        simp [erase, ih]
      · simp [erase, get?, ih, hj]
    · by_cases hj : k' = j
      · subst hj
        simp [erase, get?, hk, Ne.symm hk]
      · simp [erase, get?, hk, hj, ih]

theorem get?_modify (t : Table κ α) (k j : κ) (f : α → α) :
    get? (modify t k f) j = if k = j then (get? t j).map f else get? t j := by
  induction t with
  | nil => simp [modify]
  | cons e rest ih =>
    obtain ⟨k', a⟩ := e
    by_cases hk : k' = k
    · subst hk
      by_cases hj : k' = j <;> simp [modify, get?, hj]
    · by_cases hj : k' = j
      · subst hj
        simp [modify, get?, hk, Ne.symm hk]
      · simp [modify, get?, hk, hj, ih]

theorem mem_of_get? {t : Table κ α} {k : κ} {a : α} (h : get? t k = some a) : (k, a) ∈ t := by
  induction t with
  | nil => cases h
  | cons e rest ih =>
    obtain ⟨k', a'⟩ := e
    rw [get?] at h
    split at h
    · rename_i hk
      obtain rfl := Option.some.inj h
      rw [hk]
      exact List.mem_cons_self
    · exact List.mem_cons_of_mem _ (ih h)

theorem mem_keys {t : Table κ α} {k : κ} : k ∈ keys t ↔ (get? t k).isSome := by
  induction t with
  | nil => simp [keys]
  | cons e rest ih =>
    obtain ⟨k', a⟩ := e
    by_cases hk : k' = k
    · simp [keys, get?, hk]
    · simp [get?, hk, ← ih, keys, Ne.symm hk]

theorem nodup_insert {t : Table κ α} (h : (keys t).Nodup) (k : κ) (a : α) :
    (keys (insert t k a)).Nodup := by
  induction t with
  | nil => simp [insert, keys]
  | cons e rest ih =>
    obtain ⟨k', a'⟩ := e
    obtain ⟨new, nodup⟩ := List.nodup_cons.mp h
    by_cases hk : k' = k
    · subst hk
      simp only [insert, if_true]
      exact h
    · rw [insert, if_neg hk]
      refine List.nodup_cons.mpr ⟨fun hmem => ?_, ih nodup⟩
      rw [show List.map Prod.fst (insert rest k a) = keys (insert rest k a) from rfl, mem_keys,
        get?_insert, if_neg (Ne.symm hk), ← mem_keys] at hmem
      exact new hmem

theorem erase_sublist (t : Table κ α) (k : κ) : List.Sublist (erase t k) t := by
  induction t with
  | nil => exact .slnil
  | cons e rest ih =>
    obtain ⟨k', a⟩ := e
    rw [erase]
    split
    · exact ih.cons _
    · exact ih.cons_cons _

theorem nodup_erase {t : Table κ α} (h : (keys t).Nodup) (k : κ) : (keys (erase t k)).Nodup :=
  h.sublist ((erase_sublist t k).map Prod.fst)

end Table

end HeaterLink
