import Mathlib.Data.List.Basic
import Mathlib.Data.List.Nodup

/-!
# Trees of files and folders

`find` follows a path of names from the root. Two names with one `key` are the
same name, as on a file system that ignores case.

* `WellNamed`: in every folder the names are good and their keys distinct.
* `WellNamed.find_entry`: an entry is found under its name.
-/

/-- A file with its content, or a folder with its entries in order. -/
inductive FolderTree (α β : Type)
  | file (content : β)
  | folder (entries : List (α × FolderTree α β))

namespace FolderTree

variable {α β κ : Type}

def isFolder : FolderTree α β → Bool
  | file _ => false
  | folder _ => true

/-- What is in a folder; nothing is in a file. -/
def entries : FolderTree α β → List (α × FolderTree α β)
  | file _ => []
  | folder es => es

variable [DecidableEq κ] (key : α → κ)

/-- What the path leads to from here. -/
def find : FolderTree α β → List α → Option (FolderTree α β)
  | t, [] => some t
  | t, n :: path =>
    match t.entries.find? fun e => key e.1 = key n with
    | some e => e.2.find path
    | none => none

theorem find_cons (t : FolderTree α β) (n : α) (path : List α) :
    t.find key (n :: path) =
      (t.entries.find? fun e => key e.1 = key n).bind fun e => e.2.find key path := by
  rw [find]
  cases t.entries.find? fun e => key e.1 = key n <;> rfl

/-- One name leads to an entry with its key. -/
theorem mem_entries_of_find {t f : FolderTree α β} {n : α} (h : t.find key [n] = some f) :
    ∃ m, (m, f) ∈ t.entries ∧ key m = key n := by
  rw [find_cons] at h
  obtain ⟨e, he, hf⟩ := Option.bind_eq_some_iff.mp h
  obtain rfl := Option.some.inj hf
  exact ⟨e.1, List.mem_of_find?_eq_some he, by simpa using List.find?_some he⟩

/-- Every folder of the tree has good names with distinct keys. -/
structure WellNamed (good : α → Prop) (t : FolderTree α β) : Prop where
  good : ∀ path f, t.find key path = some f → ∀ e ∈ f.entries, good e.1
  distinct : ∀ path f, t.find key path = some f → (f.entries.map fun e => key e.1).Nodup

variable {key} {good : α → Prop}

/-- An entry is found under every name with its key. -/
theorem WellNamed.find_entry {t f : FolderTree α β} (h : t.WellNamed key good) {m n : α}
    (hm : (m, f) ∈ t.entries) (hkey : key m = key n) : t.find key [n] = some f := by
  have hdistinct := h.distinct [] t rfl
  have hfind : t.entries.find? (fun e => key e.1 = key n) = some (m, f) := by
    generalize t.entries = es at hm hdistinct
    induction es with
    | nil => exact absurd hm List.not_mem_nil
    | cons e es ih =>
      rw [List.map_cons, List.nodup_cons] at hdistinct
      rcases List.mem_cons.mp hm with rfl | hm
      · rw [List.find?_cons_of_pos (by simpa using hkey)]
      · have hne : key e.1 ≠ key n := by
          intro heq
          refine hdistinct.1 (List.mem_map.mpr ⟨(m, f), hm, ?_⟩)
          rw [heq, ← hkey]
        rw [List.find?_cons_of_neg (by simpa using hne)]
        exact ih hm hdistinct.2
  rw [find_cons, hfind]
  rfl

theorem WellNamed.file (content : β) : (FolderTree.file content : FolderTree α β).WellNamed key good := by
  have hnone : ∀ path f, (FolderTree.file content : FolderTree α β).find key path = some f → f.entries = [] := by
    intro path f hf
    cases path with
    | nil =>
      obtain rfl := Option.some.inj hf
      rfl
    | cons n path => cases hf
  constructor
  · intro path f hf e he
    rw [hnone path f hf] at he
    exact absurd he List.not_mem_nil
  · intro path f hf
    rw [hnone path f hf]
    exact List.nodup_nil

/-- A folder is well named if it is so itself and its entries are. -/
theorem WellNamed.folder {es : List (α × FolderTree α β)} (hgood : ∀ e ∈ es, good e.1)
    (hdistinct : (es.map fun e => key e.1).Nodup) (hentries : ∀ e ∈ es, e.2.WellNamed key good) :
    (FolderTree.folder es).WellNamed key good := by
  have hcases : ∀ path f, (FolderTree.folder es).find key path = some f → f = FolderTree.folder es ∨
      ∃ e ∈ es, ∃ q, e.2.find key q = some f := by
    intro path f hf
    cases path with
    | nil =>
      obtain rfl := Option.some.inj hf
      exact .inl rfl
    | cons n path =>
      rw [find_cons] at hf
      obtain ⟨e, he, hf⟩ := Option.bind_eq_some_iff.mp hf
      exact .inr ⟨e, List.mem_of_find?_eq_some he, path, hf⟩
  constructor
  · intro path f hf
    rcases hcases path f hf with rfl | ⟨e, he, q, hq⟩
    · exact hgood
    · exact (hentries e he).good q f hq
  · intro path f hf
    rcases hcases path f hf with rfl | ⟨e, he, q, hq⟩
    · exact hdistinct
    · exact (hentries e he).distinct q f hq

end FolderTree
