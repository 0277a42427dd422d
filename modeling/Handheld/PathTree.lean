import Mathlib.Data.List.Basic
import Mathlib.Data.List.Infix
import Mathlib.Data.List.Nodup
import Mathlib.Tactic.SplitIfs

/-!
# Trees of files and folders, by path

A `PathTree` says what stands at every path and carries the facts that make it
a tree: the root is a folder, and whatever stands somewhere stands in a folder.
`remove`, `put` and `move` keep these facts. `walk` follows the steps of a path
down the tree.

Results:
1. `item_eq_none_below`: nothing stands below a file or a free path.
2. `mem_names`, `nodup_names`: the entries of a folder, each once.
3. `without_remove`, `moved_move`: what a removal and a move change.
4. `walk_append`: a path is followed part by part.
-/

/-- What stands at a path. -/
inductive PathItem (γ : Type)
  | folder
  | file (content : γ)
deriving DecidableEq, Repr

/-- Where one component of a path leads. -/
inductive PathStep (ν : Type)
  | name (n : ν)
  | here
  | up
  | nowhere
deriving DecidableEq, Repr

structure PathTree (ν γ : Type) where
  item : List ν → Option (PathItem γ)
  /-- The paths at which something stands, each once. -/
  paths : List (List ν)
  nodup_paths : paths.Nodup
  mem_paths : ∀ p, p ∈ paths ↔ item p ≠ none
  item_root : item [] = some .folder
  item_parent : ∀ p n, item (p ++ [n]) ≠ none → item p = some .folder

namespace PathTree

variable {ν γ : Type}

/-! ## Above and below a path -/

section below

variable (t : PathTree ν γ)

/-- Whatever is above something is a folder. -/
theorem item_eq_folder_above {p q : List ν} (hq : q ≠ []) (h : t.item (p ++ q) ≠ none) :
    t.item p = some .folder := by
  induction q using List.reverseRecOn with
  | nil => exact absurd rfl hq
  | append_singleton q n ih =>
    rw [← List.append_assoc] at h
    have hparent := t.item_parent (p ++ q) n h
    cases q with
    | nil => rwa [List.append_nil] at hparent
    | cons a q =>
      refine ih (List.cons_ne_nil a q) ?_
      rw [hparent]
      exact Option.some_ne_none _

theorem item_eq_none_below {p q : List ν} (hq : q ≠ []) (h : t.item p ≠ some .folder) :
    t.item (p ++ q) = none := by
  refine Classical.byContradiction fun hitem => h ?_
  exact t.item_eq_folder_above hq hitem

/-- Nothing is at a free path or below it. -/
theorem item_append_of_free {p : List ν} (h : t.item p = none) (q : List ν) :
    t.item (p ++ q) = none := by
  cases q with
  | nil => rwa [List.append_nil]
  | cons n q =>
    refine t.item_eq_none_below (List.cons_ne_nil n q) ?_
    rw [h]
    exact (Option.some_ne_none _).symm

theorem ne_nil_of_free {p : List ν} (h : t.item p = none) : p ≠ [] := by
  rintro rfl
  rw [t.item_root] at h
  exact Option.some_ne_none _ h

end below

/-! ## Two trees -/

section compare

variable (t t' : PathTree ν γ)

/-- The same things stand at the same paths. -/
def Same : Prop := ∀ q, t'.item q = t.item q

/-- `t'` is `t` without what stood at `p`. -/
def Without (p : List ν) : Prop := t'.item p = none ∧ ∀ q, q ≠ p → t'.item q = t.item q

/-- `t'` is `t` with what stood at `p` and below it at `q`, where nothing stood. -/
structure Moved (p q : List ν) : Prop where
  there : t.item p ≠ none
  free : t.item q = none
  here : ∀ r, t'.item (q ++ r) = t.item (p ++ r)
  gone : ∀ r, t'.item (p ++ r) = none
  other : ∀ r, ¬ p <+: r → ¬ q <+: r → t'.item r = t.item r

end compare

/-! ## The entries of a folder -/

section names

variable [DecidableEq ν]

/-- The name that a path has below `p`, if it is one step below. -/
def nameBelow (p q : List ν) : Option ν := if q.dropLast = p then q.getLast? else none

/-- The names in the folder `p`. -/
def names (t : PathTree ν γ) (p : List ν) : List ν := t.paths.filterMap (nameBelow p)

theorem nameBelow_eq_some_iff {p q : List ν} {n : ν} : nameBelow p q = some n ↔ q = p ++ [n] := by
  unfold nameBelow
  constructor
  · intro h
    split_ifs at h with hp
    obtain ⟨r, rfl⟩ := List.getLast?_eq_some_iff.mp h
    rw [List.dropLast_concat] at hp
    rw [hp]
  · rintro rfl
    rw [List.dropLast_concat, if_pos rfl, List.getLast?_concat]

theorem mem_names {t : PathTree ν γ} {p : List ν} {n : ν} :
    n ∈ t.names p ↔ t.item (p ++ [n]) ≠ none := by
  unfold names
  rw [List.mem_filterMap, ← t.mem_paths]
  constructor
  · rintro ⟨q, hq, hname⟩
    rwa [← nameBelow_eq_some_iff.mp hname]
  · exact fun h => ⟨p ++ [n], h, nameBelow_eq_some_iff.mpr rfl⟩

theorem nodup_names (t : PathTree ν γ) (p : List ν) : (t.names p).Nodup := by
  refine List.Nodup.filterMap (fun q q' n hq hq' => ?_) t.nodup_paths
  rw [nameBelow_eq_some_iff.mp hq, nameBelow_eq_some_iff.mp hq']

theorem names_eq_nil_iff {t : PathTree ν γ} {p : List ν} :
    t.names p = [] ↔ ∀ n, t.item (p ++ [n]) = none := by
  rw [List.eq_nil_iff_forall_not_mem]
  exact forall_congr' fun n => by rw [mem_names, not_not]

/-- Nothing is below an empty folder or a file. -/
theorem item_below_eq_none {t : PathTree ν γ} {p q : List ν} (h : t.names p = []) (hq : q ≠ []) :
    t.item (p ++ q) = none := by
  cases q with
  | nil => exact absurd rfl hq
  | cons n q =>
    have hn : t.item (p ++ [n]) = none := names_eq_nil_iff.mp h n
    have hbelow := t.item_append_of_free hn q
    rwa [List.append_assoc] at hbelow

end names

/-! ## Changing the tree -/

section change

variable [DecidableEq ν] (t : PathTree ν γ)

/-- The tree with an empty root. -/
def bare : PathTree ν γ where
  item p := if p = [] then some .folder else none
  paths := [[]]
  nodup_paths := List.nodup_singleton []
  mem_paths p := by
    cases p <;> simp
  item_root := if_pos rfl
  item_parent p n h := absurd (if_neg (by simp)) h

/-- Without `p` and what is below it. -/
def remove (p : List ν) (hp : p ≠ []) : PathTree ν γ where
  item q := if p <+: q then none else t.item q
  paths := t.paths.filter fun q => ¬ p <+: q
  nodup_paths := t.nodup_paths.filter _
  mem_paths q := by
    rw [List.mem_filter, t.mem_paths]
    by_cases h : p <+: q <;> simp [h]
  item_root := by
    rw [if_neg fun h => hp (List.prefix_nil.mp h)]
    exact t.item_root
  item_parent q n h := by
    split_ifs at h with hbelow
    · exact absurd rfl h
    · rw [if_neg fun hq => hbelow (hq.trans (List.prefix_append q [n]))]
      exact t.item_parent q n h

theorem item_remove (p : List ν) (hp : p ≠ []) (q : List ν) :
    (t.remove p hp).item q = if p <+: q then none else t.item q := rfl

/-- Removing what has nothing below it removes just that. -/
theorem without_remove {p : List ν} (hp : p ≠ []) (h : t.names p = []) :
    t.Without (t.remove p hp) p := by
  refine ⟨by rw [item_remove, if_pos List.prefix_rfl], fun q hq => ?_⟩
  rw [item_remove]
  split_ifs with hbelow
  · obtain ⟨r, rfl⟩ := hbelow
    have hr : r ≠ [] := fun hr => hq (by rw [hr, List.append_nil])
    exact (item_below_eq_none h hr).symm
  · rfl

/-- A removal moves nothing. -/
theorem not_moved_remove {p q : List ν} (hp : p ≠ []) : ¬ t.Moved (t.remove p hp) p q := by
  intro h
  have hhere := h.here []
  rw [List.append_nil, List.append_nil, item_remove] at hhere
  split_ifs at hhere
  · exact h.there hhere.symm
  · exact h.there (hhere.symm.trans h.free)

/-- With `i` at `p`, where its folder is there and no folder is replaced. -/
def put (p : List ν) (i : PathItem γ) (hfolder : t.item p.dropLast = some .folder)
    (hp : t.item p ≠ some .folder) : PathTree ν γ where
  item q := if q = p then some i else t.item q
  paths := t.paths.insert p
  nodup_paths := List.Nodup.insert t.nodup_paths
  mem_paths q := by
    rw [List.mem_insert_iff, t.mem_paths]
    by_cases h : q = p <;> simp [h]
  item_root := by
    have hne : [] ≠ p := fun h : [] = p => hp (h ▸ t.item_root)
    rw [if_neg hne]
    exact t.item_root
  item_parent q n h := by
    have hq : t.item q = some .folder := by
      split_ifs at h with heq
      · rw [← heq, List.dropLast_concat] at hfolder
        exact hfolder
      · exact t.item_parent q n h
    have hne : q ≠ p := fun heq : q = p => hp (heq ▸ hq)
    rw [if_neg hne]
    exact hq

/-- Where the path below `target` comes from when `source` is moved there. -/
def origin (source target q : List ν) : List ν := source ++ q.drop target.length

/-- The paths at which something stands once `source` is at `target`. -/
def movedPaths (source target : List ν) (paths : List (List ν)) : List (List ν) :=
  ((paths.filter fun q => source <+: q).map fun q => target ++ q.drop source.length) ++
    paths.filter fun q => ¬ source <+: q

theorem append_mem_movedPaths {source target r : List ν} (hfree : t.item target = none) :
    target ++ r ∈ movedPaths source target t.paths ↔ t.item (source ++ r) ≠ none := by
  have hbelow : t.item (target ++ r) = none := t.item_append_of_free hfree r
  have hstay : target ++ r ∉ t.paths.filter fun q => ¬ source <+: q :=
    fun h => (t.mem_paths _).mp (List.mem_of_mem_filter h) hbelow
  rw [movedPaths, List.mem_append, or_iff_left hstay, List.mem_map]
  constructor
  · rintro ⟨q, hq, heq⟩
    rw [List.mem_filter, t.mem_paths, decide_eq_true_iff] at hq
    obtain ⟨hitem, r', rfl⟩ := hq
    rw [List.drop_left, List.append_cancel_left_eq] at heq
    rwa [← heq]
  · intro hitem
    refine ⟨source ++ r, ?_, by rw [List.drop_left]⟩
    rw [List.mem_filter, t.mem_paths, decide_eq_true_iff]
    exact ⟨hitem, List.prefix_append source r⟩

theorem mem_movedPaths {source target q : List ν} (h : ¬ target <+: q) :
    q ∈ movedPaths source target t.paths ↔ t.item q ≠ none ∧ ¬ source <+: q := by
  have hmoved : q ∉ (t.paths.filter fun q => source <+: q).map
      fun q => target ++ q.drop source.length := by
    rw [List.mem_map]
    rintro ⟨p, -, rfl⟩
    exact h (List.prefix_append target _)
  rw [movedPaths, List.mem_append, or_iff_right hmoved, List.mem_filter, t.mem_paths,
    decide_eq_true_iff]

theorem nodup_movedPaths {source target : List ν} (hfree : t.item target = none) :
    (movedPaths source target t.paths).Nodup := by
  have hmoved : ((t.paths.filter fun q => source <+: q).map
      fun q => target ++ q.drop source.length).Nodup := by
    refine List.Nodup.map_on (fun p hp q hq heq => ?_) (t.nodup_paths.filter _)
    obtain ⟨r, rfl⟩ : source <+: p := by simpa using List.of_mem_filter hp
    obtain ⟨s, rfl⟩ : source <+: q := by simpa using List.of_mem_filter hq
    rw [List.drop_left, List.drop_left] at heq
    rw [List.append_cancel_left heq]
  refine List.nodup_append.mpr ⟨hmoved, t.nodup_paths.filter _, ?_⟩
  rintro q hq q' hstay rfl
  -- what stays is there, and nothing was below the free path
  obtain ⟨r, -, rfl⟩ := List.mem_map.mp hq
  exact (t.mem_paths _).mp (List.mem_of_mem_filter hstay) (t.item_append_of_free hfree _)

/-- With `source` and what is below it at the free path `target`. -/
def move (source target : List ν) (hsource : source ≠ []) (hfree : t.item target = none)
    (hfolder : t.item target.dropLast = some .folder) (hout : ¬ source <+: target) :
    PathTree ν γ where
  item q :=
    if target <+: q then t.item (origin source target q)
    else if source <+: q then none
    else t.item q
  paths := movedPaths source target t.paths
  nodup_paths := t.nodup_movedPaths hfree
  mem_paths q := by
    by_cases htarget : target <+: q
    · obtain ⟨r, rfl⟩ := htarget
      rw [if_pos (List.prefix_append target r), origin, List.drop_left]
      exact t.append_mem_movedPaths hfree
    · rw [if_neg htarget, t.mem_movedPaths htarget]
      by_cases hsource : source <+: q <;> simp [hsource]
  item_root := by
    rw [if_neg fun h => t.ne_nil_of_free hfree (List.prefix_nil.mp h),
      if_neg fun h => hsource (List.prefix_nil.mp h)]
    exact t.item_root
  item_parent q n h := by
    split_ifs at h with htarget hsrc
    · by_cases hq : target <+: q
      · rw [if_pos hq]
        obtain ⟨r, rfl⟩ := hq
        rw [origin, List.append_assoc, List.drop_left, ← List.append_assoc] at h
        rw [origin, List.drop_left]
        exact t.item_parent _ n h
      · -- `q` is the folder of the target itself
        have heq : target = q ++ [n] := (List.prefix_concat_iff.mp htarget).resolve_right hq
        rw [if_neg hq, if_neg fun hs => hout (heq ▸ hs.trans (List.prefix_append q [n]))]
        rwa [heq, List.dropLast_concat] at hfolder
    · exact absurd rfl h
    · rw [if_neg fun hq => htarget (hq.trans (List.prefix_append q [n])),
        if_neg fun hq => hsrc (hq.trans (List.prefix_append q [n]))]
      exact t.item_parent q n h

theorem item_move {source target : List ν} {hsource : source ≠ []} {hfree : t.item target = none}
    {hfolder : t.item target.dropLast = some .folder} {hout : ¬ source <+: target} (q : List ν) :
    (t.move source target hsource hfree hfolder hout).item q =
      if target <+: q then t.item (origin source target q)
      else if source <+: q then none
      else t.item q := rfl

theorem moved_move {source target : List ν} (hsource : source ≠ []) (hfree : t.item target = none)
    (hfolder : t.item target.dropLast = some .folder) (hout : ¬ source <+: target)
    (hthere : t.item source ≠ none) :
    t.Moved (t.move source target hsource hfree hfolder hout) source target where
  there := hthere
  free := hfree
  here r := by rw [item_move, if_pos (List.prefix_append target r), origin, List.drop_left]
  gone r := by
    rw [item_move]
    have hbeside : ¬ target <+: source ++ r := by
      intro htarget
      rcases List.prefix_or_prefix_of_prefix htarget (List.prefix_append source r) with h | h
      · obtain ⟨s, rfl⟩ := h
        exact hthere (t.item_append_of_free hfree s)
      · exact hout h
    rw [if_neg hbeside, if_pos (List.prefix_append source r)]
  other r hr htarget := by rw [item_move, if_neg htarget, if_neg hr]

end change

/-! ## Following a path -/

section walk

variable {β : Type} [DecidableEq γ] (t : PathTree ν γ)

/-- One component, followed from a folder. -/
def walkStep (meaning : β → PathStep ν) (p : List ν) (c : β) : Option (List ν) :=
  if t.item p = some .folder then
    match meaning c with
    | .name n => some (p ++ [n])
    | .here => some p
    | .up => some p.dropLast
    | .nowhere => none
  else none

/-- The components, followed one by one. The last one may lead to a free path. -/
def walk (meaning : β → PathStep ν) : List ν → List β → Option (List ν)
  | p, [] => some p
  | p, c :: cs => (t.walkStep meaning p c).bind fun q => walk meaning q cs

variable {meaning : β → PathStep ν}

theorem walk_append (p : List ν) (cs ds : List β) :
    t.walk meaning p (cs ++ ds) = (t.walk meaning p cs).bind fun q => t.walk meaning q ds := by
  induction cs generalizing p with
  | nil => rfl
  | cons c cs ih =>
    show (t.walkStep meaning p c).bind _ = ((t.walkStep meaning p c).bind _).bind _
    rw [Option.bind_assoc]
    exact Option.bind_congr fun q _ => ih q

theorem walk_singleton (p : List ν) (c : β) : t.walk meaning p [c] = t.walkStep meaning p c := by
  show (t.walkStep meaning p c).bind some = _
  exact Option.bind_fun_some _

/-- A name leads one step down from a folder. -/
theorem walkStep_name {p q : List ν} {c : β} {n : ν} (h : meaning c = .name n) :
    t.walkStep meaning p c = some q ↔ t.item p = some .folder ∧ p ++ [n] = q := by
  unfold walkStep
  rw [h]
  by_cases hp : t.item p = some .folder
  · rw [if_pos hp, Option.some_inj, and_iff_right hp]
  · rw [if_neg hp]
    exact iff_of_false (Option.some_ne_none q).symm fun hfolder => hp hfolder.1

end walk

end PathTree
