import Mathlib.Data.List.Nodup
import Mathlib.Algebra.BigOperators.Group.List.Basic
import Six.Lib.Index

/-! Linked lists of records that are searched by a key.  `find` returns the first record with a key,
`update` changes it in place and `erase` unlinks it.  `total` adds up a measure of the records. -/

namespace Six.Lib.Table

open List

variable {α κ : Type*} [DecidableEq κ] (key : α → κ)

def find : List α → κ → Option α
  | [], _ => none
  | a :: t, k => if key a = k then some a else find t k

def update : List α → κ → (α → α) → List α
  | [], _, _ => []
  | a :: t, k, f => if key a = k then f a :: t else a :: update t k f

def erase : List α → κ → List α
  | [], _ => []
  | a :: t, k => if key a = k then t else a :: erase t k

def total (g : α → Nat) (t : List α) : Nat := (t.map g).sum

variable {key} {t : List α} {k : κ} {a : α} {f : α → α} {g : α → Nat}

@[simp] theorem total_nil : total g [] = 0 := rfl

@[simp] theorem total_cons : total g (a :: t) = g a + total g t := by simp [total]

theorem find_key (h : find key t k = some a) : key a = k := by
  induction t with
  | nil => cases h
  | cons b t ih =>
    unfold find at h
    split_ifs at h with hb
    · cases h
      exact hb
    · exact ih h

theorem find_mem (h : find key t k = some a) : a ∈ t := by
  induction t with
  | nil => cases h
  | cons b t ih =>
    unfold find at h
    split_ifs at h with hb
    · cases h
      exact mem_cons_self
    · exact mem_cons_of_mem _ (ih h)

theorem find_eq_none_iff : find key t k = none ↔ k ∉ t.map key := by
  induction t with
  | nil => simp [find]
  | cons b t ih =>
    unfold find
    split_ifs with hb
    · simp [hb]
    · rw [ih, map_cons, mem_cons, not_or]
      exact ⟨fun h => ⟨fun heq => hb heq.symm, h⟩, And.right⟩

theorem find_of_mem (hkeys : (t.map key).Nodup) (h : a ∈ t) : find key t (key a) = some a := by
  induction t with
  | nil => cases h
  | cons b t ih =>
    rw [map_cons, nodup_cons] at hkeys
    unfold find
    rcases mem_cons.mp h with rfl | htail
    · rw [if_pos rfl]
    · have hne : key b ≠ key a := fun heq => hkeys.1 (heq ▸ mem_map_of_mem htail)
      rw [if_neg hne, ih hkeys.2 htail]

theorem map_update (hf : ∀ a, key (f a) = key a) : (update key t k f).map key = t.map key := by
  induction t with
  | nil => rfl
  | cons b t ih =>
    unfold update
    split_ifs
    · simp [hf]
    · simp [ih]

theorem find_update_of_ne (hf : ∀ a, key (f a) = key a) (hj : j ≠ k) :
    find key (update key t k f) j = find key t j := by
  induction t with
  | nil => rfl
  | cons b t ih =>
    unfold update
    split_ifs with hb
    · have hne : key b ≠ j := fun h => hj (h.symm.trans hb)
      simp [find, hf, hne]
    · simp only [find, ih]

theorem find_update_self (hf : ∀ a, key (f a) = key a) :
    find key (update key t k f) k = (find key t k).map f := by
  induction t with
  | nil => rfl
  | cons b t ih =>
    unfold update
    split_ifs with hb
    · simp [find, hf, hb]
    · simp [find, hb, ih]

theorem update_of_find_eq_none (h : find key t k = none) : update key t k f = t := by
  induction t with
  | nil => rfl
  | cons b t ih =>
    unfold find at h
    split_ifs at h with hb
    simp [update, hb, ih h]

theorem update_congr (h : find key t k = some a) (hf : f a = f' a) :
    update key t k f = update key t k f' := by
  induction t with
  | nil => rfl
  | cons b t ih =>
    unfold find at h
    unfold update
    split_ifs at h ⊢
    · cases h
      rw [hf]
    · rw [ih h]

theorem update_id : update key t k (fun a => a) = t := by
  induction t with
  | nil => rfl
  | cons b t ih => simp [update, ih]

theorem of_findIdx? [BEq κ] [LawfulBEq κ] (h : t.findIdx? (key · == k) = some i) :
    find key t k = t[i]? ∧ update key t k f = t.modify i f := by
  induction t generalizing i with
  | nil => cases h
  | cons b t ih =>
    unfold find update
    rw [findIdx?_cons] at h
    by_cases hb : key b = k
    · simp only [hb, beq_self_eq_true, if_true] at h
      cases h
      exact ⟨if_pos hb, if_pos hb⟩
    · rw [if_neg (by simpa using hb)] at h
      obtain ⟨j, hj, rfl⟩ := Option.map_eq_some_iff.mp h
      rw [if_neg hb, if_neg hb, (ih hj).1, (ih hj).2]
      exact ⟨rfl, rfl⟩

theorem find_append : find key (t ++ u) k = (find key t k).or (find key u k) := by
  induction t with
  | nil => rfl
  | cons b t ih =>
    simp only [cons_append, find]
    split_ifs
    · rfl
    · exact ih

theorem total_update (h : find key t k = some a) :
    total g (update key t k f) + g a = total g t + g (f a) := by
  induction t with
  | nil => cases h
  | cons b t ih =>
    unfold find at h
    unfold update
    split_ifs at h ⊢ with hb
    · cases h
      simp only [total_cons]
      omega
    · simp only [total_cons]
      have := ih h
      omega

theorem mem_update (h : b ∈ update key t k f) : b ∈ t ∨ ∃ a, find key t k = some a ∧ b = f a := by
  induction t with
  | nil => cases h
  | cons c t ih =>
    unfold update at h
    unfold find
    split_ifs at h ⊢ with hc
    · rcases mem_cons.mp h with rfl | htail
      · exact .inr ⟨c, rfl, rfl⟩
      · exact .inl (mem_cons_of_mem _ htail)
    · rcases mem_cons.mp h with rfl | htail
      · exact .inl mem_cons_self
      · rcases ih htail with hmem | hfound
        · exact .inl (mem_cons_of_mem _ hmem)
        · exact .inr hfound

theorem erase_sublist : (erase key t k).Sublist t := by
  induction t with
  | nil => exact .slnil
  | cons b t ih =>
    unfold erase
    split_ifs
    · exact sublist_cons_self b t
    · exact ih.cons_cons b

theorem erase_of_find (h : find key t k = some a) :
    ∃ before after, t = before ++ a :: after ∧ erase key t k = before ++ after := by
  induction t with
  | nil => cases h
  | cons b t ih =>
    unfold find at h
    unfold erase
    split at h
    · obtain rfl := Option.some.inj h
      exact ⟨[], t, rfl, if_pos ‹_›⟩
    · obtain ⟨before, after, ht, herase⟩ := ih h
      exact ⟨b :: before, after, by rw [ht]; rfl, by rw [if_neg ‹_›, herase]; rfl⟩

theorem mem_of_mem_erase (h : b ∈ erase key t k) : b ∈ t := erase_sublist.subset h

theorem find_erase_of_ne (hj : j ≠ k) : find key (erase key t k) j = find key t j := by
  induction t with
  | nil => rfl
  | cons b t ih =>
    unfold erase
    split_ifs with hb
    · have hne : key b ≠ j := fun h => hj (h.symm.trans hb)
      simp [find, hne]
    · simp only [find, ih]

theorem find_erase_self (hkeys : (t.map key).Nodup) : find key (erase key t k) k = none := by
  induction t with
  | nil => rfl
  | cons b t ih =>
    rw [map_cons, nodup_cons] at hkeys
    unfold erase
    split_ifs with hb
    · exact find_eq_none_iff.mpr (hb ▸ hkeys.1)
    · simp [find, hb, ih hkeys.2]

theorem total_erase (h : find key t k = some a) : total g (erase key t k) + g a = total g t := by
  induction t with
  | nil => cases h
  | cons b t ih =>
    unfold find at h
    unfold erase
    split_ifs at h ⊢ with hb
    · cases h
      simp only [total_cons]
      omega
    · simp only [total_cons]
      have := ih h
      omega

theorem nodup_erase (hkeys : (t.map key).Nodup) : ((erase key t k).map key).Nodup :=
  hkeys.sublist (erase_sublist.map key)

theorem le_total (h : a ∈ t) : g a ≤ total g t := by
  induction t with
  | nil => cases h
  | cons b t ih =>
    rw [total_cons]
    rcases mem_cons.mp h with rfl | htail
    · omega
    · have := ih htail
      omega

theorem exists_of_total_pos (h : 0 < total g t) : ∃ a ∈ t, 0 < g a := by
  induction t with
  | nil => simp at h
  | cons b t ih =>
    rw [total_cons] at h
    by_cases hb : 0 < g b
    · exact ⟨b, mem_cons_self, hb⟩
    · obtain ⟨a, hmem, ha⟩ := ih (by omega)
      exact ⟨a, mem_cons_of_mem _ hmem, ha⟩

end Six.Lib.Table
