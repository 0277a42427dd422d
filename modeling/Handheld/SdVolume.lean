import Handheld.PathTree
import Handheld.SdBrowser

/-!
# A card with folders

A `Volume` holds files and folders, answers all calls of the handlers, and lets
any call fail, which then changes nothing. How the file system reads one
component of a path (`.` and `..`, upper and lower case) is its `Naming`.

Results:
1. `place_concat`, `walk_entryName`: where what follows the last slash of a path leads.
2. `renamed_eq_some`: what a renaming makes of the tree.
-/

namespace Handheld

open ByteString

/-! ## Definitions -/

/-- How a file system reads the components of a path, and how it writes its names. -/
structure Naming (ν : Type) where
  meaning : Bytes → PathStep ν
  text : ν → Bytes
  meaning_text : ∀ n, meaning (text n) = .name n
  isFileName_text : ∀ n, IsFileName (text n)

/-- Different names are written differently. -/
theorem Naming.text_injective {ν : Type} (naming : Naming ν) {n m : ν}
    (h : naming.text n = naming.text m) : n = m := by
  have hmeaning := congrArg naming.meaning h
  rw [naming.meaning_text, naming.meaning_text] at hmeaning
  exact PathStep.name.inj hmeaning

/-- A name of a file where `.` and `..` have a meaning of their own. -/
abbrev PosixName := { n : Bytes // IsFileName n ∧ n ≠ ascii "." ∧ n ≠ ascii ".." }

def Naming.posix : Naming PosixName where
  meaning c :=
    if h : IsFileName c ∧ c ≠ ascii "." ∧ c ≠ ascii ".." then .name ⟨c, h⟩
    else if c = ascii "." then .here
    else if c = ascii ".." then .up
    else .nowhere
  text n := n.1
  meaning_text n := dif_pos n.2
  isFileName_text n := n.2.1

/-- What a card holds, whether its `n`-th call succeeds, and the calls made so far. -/
structure Volume (ν : Type) where
  naming : Naming ν
  tree : PathTree ν Bytes
  ok : Nat → Bool
  calls : Nat

namespace Volume

section calls

variable {ν : Type} [DecidableEq ν]

/-- The place that a path leads to: C string functions see the path up to the
first NUL, and the file system skips empty components. -/
def place (v : Volume ν) (path : Bytes) : Option (List ν) :=
  if startsWith path [slash] then v.tree.walk v.naming.meaning [] (resolve path) else none

/-- What is there, with its place. -/
def target (v : Volume ν) (path : Bytes) : Option (List ν × PathItem Bytes) :=
  (v.place path).bind fun p => (v.tree.item p).map fun i => (p, i)

/-- After one more call. -/
def called (v : Volume ν) : Volume ν := { v with calls := v.calls + 1 }

/-- A call that answers `failed` and changes nothing unless it succeeds. -/
def attempt {α : Type} (v : Volume ν) (failed : α) (f : Option (α × PathTree ν Bytes)) :
    α × Volume ν :=
  match if v.ok v.calls then f else none with
  | some (a, tree) => (a, { v.called with tree := tree })
  | none => (failed, v.called)

/-- A call that leaves the tree as it is. -/
def inquire {α : Type} (v : Volume ν) (failed : α) (f : Option α) : α × Volume ν :=
  ((if v.ok v.calls then f else none).getD failed, v.called)

/-- The `File` of what is at a path. -/
def file (path : Bytes) : PathItem Bytes → File
  | .folder => ⟨path, true, 0⟩
  | .file content => ⟨path, false, content.length⟩

/-- The tree with `i` at the place, if a folder is above it and none is there. -/
def placed (v : Volume ν) (p : List ν) (i : PathItem Bytes) : Option (PathTree ν Bytes) :=
  if h : v.tree.item p.dropLast = some .folder ∧ v.tree.item p ≠ some .folder then
    some (v.tree.put p i h.1 h.2)
  else none

/-- `VFSImpl::open` with `FILE_WRITE`: a folder opens as well, a file is emptied. -/
def opened (v : Volume ν) (path : Bytes) : Option (Option File × PathTree ν Bytes) :=
  (v.place path).bind fun p =>
    match v.tree.item p with
    | some .folder => some (some (file path .folder), v.tree)
    | i => (v.placed p (.file [])).map fun tree => (some (file path (i.getD (.file []))), tree)

/-- `VFSFileImpl::write` appends to the open file. -/
def written (v : Volume ν) (f : File) (d : Bytes) : Option (Nat × PathTree ν Bytes) :=
  (v.target f.path).bind fun
    | (p, .file old) => (v.placed p (.file (old ++ d))).map fun tree => (d.length, tree)
    | (_, .folder) => none

/-- `VFSImpl::mkdir`: a folder that is there is no failure. -/
def made (v : Volume ν) (path : Bytes) : Option (Bool × PathTree ν Bytes) :=
  (v.place path).bind fun p =>
    match v.tree.item p with
    | some .folder => some (true, v.tree)
    | some (.file _) => none
    | none => (v.placed p .folder).map fun tree => (true, tree)

/-- The entries of the open folder. -/
def entries (v : Volume ν) (f : File) : Option (List File) :=
  (v.place f.path).map fun p =>
    (v.tree.names p).filterMap fun n =>
      (v.tree.item (p ++ [n])).map (file (entryPath f.path (v.naming.text n)))

/-- `VFSImpl::remove`: files only. -/
def removed (v : Volume ν) (path : Bytes) : Option (PathTree ν Bytes) :=
  (v.target path).bind fun
    | (p, .file _) => if hp : p = [] then none else some (v.tree.remove p hp)
    | (_, .folder) => none

/-- `VFSImpl::rmdir`: empty folders only, and not the root. -/
def rmdired (v : Volume ν) (path : Bytes) : Option (PathTree ν Bytes) :=
  (v.target path).bind fun
    | (p, .folder) =>
      if hp : p = [] then none
      else if v.tree.names p = [] then some (v.tree.remove p hp) else none
    | (_, .file _) => none

/-- `VFSImpl::rename`: the target must be free and its folder there. A folder
that is moved into itself is lost, where this does not fail. -/
def renamed (v : Volume ν) (pathFrom pathTo : Bytes) : Option (PathTree ν Bytes) :=
  (v.target pathFrom).bind fun source =>
    (v.place pathTo).bind fun q =>
      if h : source.1 ≠ [] ∧ v.tree.item q = none ∧ v.tree.item q.dropLast = some .folder then
        if hout : source.1 <+: q then some (v.tree.remove source.1 h.1)
        else some (v.tree.move source.1 q h.1 h.2.1 h.2.2 hout)
      else none

instance : Sd (Volume ν) where
  exists_ p := fun v => v.inquire false ((v.target p).map fun _ => true)
  mkdir p := fun v => v.attempt false (v.made p)
  open_ p m := fun v =>
    match m with
    | .read => v.inquire none ((v.target p).map fun i => some (file p i.2))
    | .write => v.attempt none (v.opened p)
  write f d := fun v => v.attempt 0 (v.written f d)
  openNextFiles f := fun v => v.inquire [] (v.entries f)
  remove p := fun v => v.attempt false ((v.removed p).map fun tree => (true, tree))
  rmdir p := fun v => v.attempt false ((v.rmdired p).map fun tree => (true, tree))
  rename p q := fun v => v.attempt false ((v.renamed p q).map fun tree => (true, tree))

end calls

/-! ## 1. Where a path leads -/

section place

variable {ν : Type} {v : Volume ν}

theorem attempt_ok {α : Type} {v : Volume ν} (h : v.ok v.calls = true) (failed a : α)
    (tree : PathTree ν Bytes) :
    v.attempt failed (some (a, tree)) = (a, { v.called with tree := tree }) := by
  unfold attempt
  rw [h]
  rfl

theorem attempt_failed {α : Type} {v : Volume ν} (h : v.ok v.calls = false) (failed : α)
    (f : Option (α × PathTree ν Bytes)) : v.attempt failed f = (failed, v.called) := by
  unfold attempt
  rw [h]
  rfl

theorem attempt_none {α : Type} (v : Volume ν) (failed : α) :
    v.attempt failed none = (failed, v.called) := by
  unfold attempt
  cases v.ok v.calls <;> rfl

theorem inquire_ok {α : Type} {v : Volume ν} (h : v.ok v.calls = true) (failed a : α) :
    v.inquire failed (some a) = (a, v.called) := by
  unfold inquire
  rw [h]
  rfl

theorem file_isDirectory (path : Bytes) (i : PathItem Bytes) :
    (file path i).isDirectory = decide (i = .folder) := by
  cases i <;> rfl

/-- The name of an entry's `File` is the name of the entry. -/
theorem name_file (v : Volume ν) (path : Bytes) (n : ν) (i : PathItem Bytes) :
    (file (entryPath path (v.naming.text n)) i).name = v.naming.text n := by
  cases i <;> exact name_entryPath path (v.naming.isFileName_text n) _ _

theorem target_eq_some_iff {v : Volume ν} {path : Bytes} {p : List ν} {i : PathItem Bytes} :
    v.target path = some (p, i) ↔ v.place path = some p ∧ v.tree.item p = some i := by
  unfold target
  simp only [Option.bind_eq_some_iff, Option.map_eq_some_iff, Prod.mk.injEq]
  constructor
  · rintro ⟨q, hq, j, hj, rfl, rfl⟩
    exact ⟨hq, hj⟩
  · rintro ⟨hp, hi⟩
    exact ⟨p, hp, i, hi, rfl, rfl⟩

theorem startsWith_append_slash (d x : Bytes) :
    startsWith (d ++ slash :: x) [slash] = startsWith (d ++ [slash]) [slash] := by
  cases d <;> rfl

/-- What follows the last slash is looked up in the place of what precedes it. -/
theorem place_concat (v : Volume ν) {d : Bytes} (hd : 0 ∉ d) (x : Bytes) :
    v.place (d ++ slash :: x) =
      (v.place (d ++ [slash])).bind fun p =>
        v.tree.walk v.naming.meaning p (components (cstr x)) := by
  have hresolve : ∀ y : Bytes, resolve (d ++ slash :: y) = components d ++ components (cstr y) := by
    intro y
    rw [resolve, cstr_append hd, cstr_slash_cons, components_append_slash]
  have hfolder : resolve (d ++ [slash]) = components d := by
    rw [hresolve]
    exact List.append_nil _
  unfold place
  rw [startsWith_append_slash]
  split_ifs
  · rw [hresolve, hfolder, PathTree.walk_append]
  · rfl

/-- A NUL before the last slash cuts off what follows it. -/
theorem place_concat_of_mem (v : Volume ν) {d : Bytes} (hd : 0 ∈ d) (x : Bytes) :
    v.place (d ++ slash :: x) = v.place (d ++ [slash]) := by
  unfold place resolve
  rw [startsWith_append_slash, cstr_append_of_mem hd, cstr_append_of_mem hd]

/-- `c` is the name `n` of an entry. -/
def EntryName (v : Volume ν) (c : Bytes) (n : ν) : Prop :=
  IsFileName c ∧ v.naming.meaning c = .name n

/-- Where the last part of a path leads from its folder: to an entry of it, or
not below it. -/
theorem walk_last_cases {D p : List ν} {b : Bytes} (hb : slash ∉ b)
    (h : v.tree.walk v.naming.meaning D (components (cstr b)) = some p) :
    (∃ m, v.EntryName (cstr b) m ∧ p = D ++ [m]) ∨ p <+: D := by
  have hslash : slash ∉ cstr b := fun hmem => hb (List.takeWhile_subset _ hmem)
  rw [components_of_notMem hslash] at h
  by_cases hnil : cstr b = []
  · rw [if_pos hnil] at h
    cases h
    exact .inr List.prefix_rfl
  · rw [if_neg hnil, PathTree.walk_singleton] at h
    unfold PathTree.walkStep at h
    split_ifs at h
    cases hmeaning : v.naming.meaning (cstr b) with
    | name m =>
      rw [hmeaning] at h
      cases h
      exact .inl ⟨m, ⟨⟨⟨hnil, hslash⟩, zero_notMem_cstr b⟩, hmeaning⟩, rfl⟩
    | here =>
      rw [hmeaning] at h
      cases h
      exact .inr List.prefix_rfl
    | up =>
      rw [hmeaning] at h
      cases h
      exact .inr (List.dropLast_prefix D)
    | nowhere =>
      rw [hmeaning] at h
      cases h

/-- A name leads to an entry of the folder. -/
theorem walk_entryName {D p : List ν} {c : Bytes} {n : ν} (hc : v.EntryName c n)
    (h : v.tree.walk v.naming.meaning D (components (cstr c)) = some p) : p = D ++ [n] := by
  obtain ⟨⟨⟨hne, hslash⟩, hnul⟩, hmeaning⟩ := hc
  rw [cstr_eq_self hnul, components_of_notMem hslash, if_neg hne, PathTree.walk_singleton,
    PathTree.walkStep_name v.tree hmeaning] at h
  exact h.2.symm

/-- The folder from which two paths with the same beginning go on. -/
theorem places_of_ne {d b c : Bytes} {p q : List ν} (hp : v.place (d ++ slash :: b) = some p)
    (hq : v.place (d ++ slash :: c) = some q) (h : p ≠ q) :
    ∃ D, v.tree.walk v.naming.meaning D (components (cstr b)) = some p ∧
      v.tree.walk v.naming.meaning D (components (cstr c)) = some q := by
  by_cases hd : 0 ∈ d
  · rw [place_concat_of_mem v hd] at hp hq
    obtain rfl := Option.some_inj.mp (hp.symm.trans hq)
    exact absurd rfl h
  · rw [place_concat v hd] at hp hq
    obtain ⟨D, hD, hb⟩ := Option.bind_eq_some_iff.mp hp
    obtain ⟨D', hD', hc⟩ := Option.bind_eq_some_iff.mp hq
    obtain rfl := Option.some_inj.mp (hD.symm.trans hD')
    exact ⟨D, hb, hc⟩

end place

/-! ## 2. Removing and renaming -/

section changes

variable {ν : Type} [DecidableEq ν] {v : Volume ν}

theorem removed_eq {path : Bytes} {p : List ν} {content : Bytes}
    (h : v.target path = some (p, .file content)) :
    ∃ hp : p ≠ [], v.removed path = some (v.tree.remove p hp) := by
  have hp : p ≠ [] := by
    rintro rfl
    have hitem := (target_eq_some_iff.mp h).2
    rw [v.tree.item_root] at hitem
    cases hitem
  refine ⟨hp, ?_⟩
  rw [removed, h, Option.bind_some]
  exact dif_neg hp

theorem rmdired_eq {path : Bytes} {p : List ν} (h : v.target path = some (p, .folder)) :
    v.rmdired path =
      if hp : p = [] then none
      else if v.tree.names p = [] then some (v.tree.remove p hp) else none := by
  rw [rmdired, h, Option.bind_some]

/-- An entry is at `p`, and `q` is free in a folder that is there. -/
structure Movable (t : PathTree ν Bytes) (p q : List ν) : Prop where
  notRoot : p ≠ []
  there : t.item p ≠ none
  free : t.item q = none
  folder : t.item q.dropLast = some .folder

/-- What a renaming makes of the tree. -/
theorem renamed_eq_some {pathFrom pathTo : Bytes} {p q : List ν} (hp : v.place pathFrom = some p)
    (hq : v.place pathTo = some q) (h : Movable v.tree p q) :
    ∃ tree, v.renamed pathFrom pathTo = some tree ∧
      if p <+: q then ∃ hroot : p ≠ [], tree = v.tree.remove p hroot else v.tree.Moved tree p q := by
  obtain ⟨i, hi⟩ := Option.ne_none_iff_exists'.mp h.there
  unfold renamed
  rw [target_eq_some_iff.mpr ⟨hp, hi⟩, Option.bind_some, hq, Option.bind_some,
    dif_pos ⟨h.notRoot, h.free, h.folder⟩]
  by_cases hinto : p <+: q
  · rw [dif_pos hinto]
    refine ⟨_, rfl, ?_⟩
    rw [if_pos hinto]
    exact ⟨h.notRoot, rfl⟩
  · rw [dif_neg hinto]
    refine ⟨_, rfl, ?_⟩
    rw [if_neg hinto]
    exact v.tree.moved_move h.notRoot h.free h.folder hinto h.there

/-- Otherwise the renaming fails. -/
theorem movable_of_renamed {pathFrom pathTo : Bytes} {tree : PathTree ν Bytes}
    (h : v.renamed pathFrom pathTo = some tree) :
    ∃ p q, v.place pathFrom = some p ∧ v.place pathTo = some q ∧ Movable v.tree p q := by
  unfold renamed at h
  obtain ⟨⟨p, i⟩, hsource, h⟩ := Option.bind_eq_some_iff.mp h
  obtain ⟨q, hq, h⟩ := Option.bind_eq_some_iff.mp h
  obtain ⟨hp, hi⟩ := target_eq_some_iff.mp hsource
  split_ifs at h with hmovable
  all_goals
    exact ⟨p, q, hp, hq, hmovable.1, by rw [hi]; exact Option.some_ne_none i, hmovable.2.1,
      hmovable.2.2⟩

end changes

end Volume

end Handheld
