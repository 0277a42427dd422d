import Mathlib.Algebra.Group.Nat.Defs
import Mathlib.Data.List.Basic
import Mathlib.Data.List.DropRight
import Mathlib.Data.List.TakeWhile

/-!
# Byte strings

A string is its list of bytes. The operations are those of the embedded
`String` class: indices are byte indices, a failed search answers `-1`, and a
`substring` is clipped to the string. `components` splits a path at its
slashes the way a file system does, so that empty components vanish.
-/

/-- A string of bytes. -/
abbrev Bytes := List UInt8

namespace ByteString

/-- The bytes of an ASCII literal. -/
def ascii (s : String) : Bytes := s.toList.map Char.toUInt8

def slash : UInt8 := '/'.toUInt8

/-- The text up to the first NUL, which is all that a C string function sees. -/
def cstr (s : Bytes) : Bytes := s.takeWhile (· != 0)

/-! ## Searching and cutting -/

/-- Index of the first `c` at or after `from_`, or `-1`. -/
def indexOf (s : Bytes) (c : UInt8) (from_ : Nat) : Int :=
  match (s.drop from_).findIdx? (· == c) with
  | some i => ((from_ + i : Nat) : Int)
  | none => -1

/-- Index of the last `c`, or `-1`. -/
def lastIndexOf (s : Bytes) (c : UInt8) : Int :=
  match s.reverse.findIdx? (· == c) with
  | some i => ((s.length - 1 - i : Nat) : Int)
  | none => -1

/-- The bytes in `[left, right)`; swapped bounds are put in order. -/
def substring (s : Bytes) (left right : Nat) : Bytes :=
  (s.take (max left right)).drop (min left right)

/-- The bytes from `left` on. -/
def substringFrom (s : Bytes) (left : Nat) : Bytes := s.drop left

def startsWith (s t : Bytes) : Bool := t.isPrefixOf s

def endsWith (s t : Bytes) : Bool := t.isSuffixOf s

/-- Every non-overlapping occurrence of `find`, from the left, becomes `by_`. -/
def replaceLoop (find by_ : Bytes) : Nat → Bytes → Bytes
  | 0, s => s
  | _ + 1, [] => []
  | fuel + 1, c :: s =>
    if find.isPrefixOf (c :: s) then
      by_ ++ replaceLoop find by_ fuel ((c :: s).drop find.length)
    else c :: replaceLoop find by_ fuel s

def replace (s find by_ : Bytes) : Bytes :=
  if find = [] then s else replaceLoop find by_ s.length s

/-! ## Characters -/

/-- `isspace` of the C locale. -/
def isSpace (c : UInt8) : Bool := c == 32 || (9 ≤ c && c ≤ 13)

def toLower (c : UInt8) : UInt8 := if 65 ≤ c ∧ c ≤ 90 then c + 32 else c

def equalsIgnoreCase (s t : Bytes) : Bool := s.map toLower == t.map toLower

/-- The text without the white space at both ends. -/
def trim (s : Bytes) : Bytes := ((s.dropWhile isSpace).reverse.dropWhile isSpace).reverse

/-! ## Numbers -/

/-- The number that the bytes write with the most significant byte first. -/
def bigEndian (s : Bytes) : Nat := s.foldl (fun n b => 256 * n + b.toNat) 0

/-- The last `width` bytes of a number, the most significant first. -/
def toBigEndian : Nat → Nat → Bytes
  | 0, _ => []
  | width + 1, n => toBigEndian width (n / 256) ++ [UInt8.ofNat (n % 256)]

/-! ## Paths -/

/-- The non-empty components between the slashes of a path. -/
def components (p : Bytes) : List Bytes := (p.splitOn slash).filter (· ≠ [])

/-- The absolute path with the given components. -/
def render (cs : List Bytes) : Bytes := slash :: [slash].intercalate cs

/-- A name that can stand between two slashes. -/
def IsName (c : Bytes) : Prop := c ≠ [] ∧ slash ∉ c

instance (c : Bytes) : Decidable (IsName c) := inferInstanceAs (Decidable (_ ∧ _))

/-! ## Lemmas -/

@[simp] theorem components_nil : components [] = [] := by decide

theorem components_append_slash (p q : Bytes) :
    components (p ++ slash :: q) = components p ++ components q := by
  simp [components, List.splitOn_append_cons_self]

@[simp] theorem components_slash_cons (p : Bytes) : components (slash :: p) = components p := by
  simpa using components_append_slash [] p

theorem components_of_notMem {c : Bytes} (h : slash ∉ c) :
    components c = if c = [] then [] else [c] := by
  unfold components
  rw [List.splitOn_eq_singleton h]
  split_ifs with hc
  · rw [hc]
    rfl
  · exact List.filter_eq_self.mpr (by simpa using hc)

/-- Rendering a list of names and splitting it again is the identity. -/
theorem components_render {cs : List Bytes} (h : ∀ c ∈ cs, IsName c) :
    components (render cs) = cs := by
  rw [render, components_slash_cons]
  cases cs with
  | nil => decide
  | cons c cs =>
    have hsplit := List.splitOn_intercalate slash (fun d hd => (h d hd).2) (List.cons_ne_nil c cs)
    rw [components, hsplit, List.filter_eq_self]
    simpa using fun d hd => (h d hd).1

theorem render_singleton (c : Bytes) : render [c] = slash :: c := by
  simp [render]

theorem render_concat {cs : List Bytes} (h : cs ≠ []) (c : Bytes) :
    render (cs ++ [c]) = render cs ++ slash :: c := by
  have key : ∀ ds : List Bytes, ds ≠ [] →
      [slash].intercalate (ds ++ [c]) = [slash].intercalate ds ++ slash :: c := by
    intro ds
    induction ds with
    | nil => simp
    | cons d ds ih =>
      intro _
      cases ds with
      | nil => simp
      | cons d' ds => simpa using ih (List.cons_ne_nil d' ds)
  rw [render, key cs h, render, List.cons_append]

theorem endsWith_name {c : Bytes} (h : IsName c) (p : Bytes) : endsWith (p ++ c) [slash] = false := by
  rw [endsWith, Bool.eq_false_iff, ne_eq, List.isSuffixOf_iff_suffix]
  rintro ⟨q, hq⟩
  have hlast : c.getLast? = some slash := by
    rw [← List.getLast?_append_of_ne_nil p h.1, ← hq]
    simp
  exact h.2 (List.mem_of_getLast? hlast)

theorem notMem_render {b : UInt8} (hb : b ≠ slash) {cs : List Bytes} (h : ∀ c ∈ cs, b ∉ c) :
    b ∉ render cs := by
  have key : ∀ ds : List Bytes, (∀ d ∈ ds, b ∉ d) → b ∉ [slash].intercalate ds := by
    intro ds
    induction ds with
    | nil => simp
    | cons d ds ih =>
      intro hds
      cases ds with
      | nil => simpa using hds
      | cons d' ds =>
        have hd := hds d List.mem_cons_self
        have hrest := ih fun x hx => hds x (List.mem_cons_of_mem d hx)
        simp [hd, hb, hrest]
  unfold render
  simp [hb, key cs h]

/-- No two slashes stand next to each other in a rendered path. -/
theorem not_infix_render {cs : List Bytes} (h : ∀ c ∈ cs, IsName c) :
    ¬ [slash, slash] <:+: render cs := by
  rintro ⟨u, v, huv⟩
  have hleft : (render cs).splitOn slash = u.splitOn slash ++ [] :: v.splitOn slash := by
    rw [← huv]
    have hsplit := List.splitOn_append_cons_self u (slash :: v) (a := slash)
    have hnil := List.splitOn_append_cons_self [] v (a := slash)
    simp_all
  cases cs with
  | nil =>
    have hlen := congrArg List.length huv
    simp [render] at hlen
    omega
  | cons c cs =>
    have hright : (render (c :: cs)).splitOn slash = [] :: c :: cs := by
      have hnil := List.splitOn_append_cons_self [] ([slash].intercalate (c :: cs)) (a := slash)
      rw [List.splitOn_intercalate slash (fun d hd => (h d hd).2) (List.cons_ne_nil c cs)] at hnil
      simpa [render] using hnil
    rw [hright] at hleft
    obtain ⟨x, xs, hx⟩ := List.exists_cons_of_ne_nil (List.splitOn_ne_nil slash u)
    rw [hx, List.cons_append, List.cons.injEq] at hleft
    have hmem : [] ∈ c :: cs := by
      rw [hleft.2]
      simp
    exact (h [] hmem).1 rfl

/-- Trimming a text that starts and goes on with other characters reaches only what follows them. -/
theorem trim_cons_append {c d : UInt8} (hc : isSpace c = false) (hd : isSpace d = false)
    (s t : Bytes) : trim (c :: (s ++ d :: t)) = c :: (s ++ d :: t.rdropWhile isSpace) := by
  have hleft : (c :: (s ++ d :: t)).dropWhile isSpace = c :: (s ++ d :: t) := by
    rw [List.dropWhile_cons, hc, if_neg Bool.false_ne_true]
  have hright : (c :: (s ++ d :: t)).reverse.dropWhile isSpace =
      t.reverse.dropWhile isSpace ++ d :: (c :: s).reverse := by
    rw [← List.cons_append, List.reverse_append, List.reverse_cons, List.append_assoc,
      List.singleton_append, List.dropWhile_append]
    split
    · next hempty =>
      rw [List.dropWhile_cons, hd, if_neg Bool.false_ne_true, List.isEmpty_iff.mp hempty,
        List.nil_append]
    · rfl
  rw [trim, hleft, hright, List.reverse_append, List.reverse_cons, List.reverse_reverse,
    List.append_assoc, List.singleton_append]
  rfl

theorem indexOf_append {pre mid : Bytes} {c : UInt8} (h : c ∉ mid) (post : Bytes) :
    indexOf (pre ++ (mid ++ c :: post)) c pre.length = ((pre.length + mid.length : Nat) : Int) := by
  have hmid : mid.findIdx? (· == c) = none := by
    simpa [List.findIdx?_eq_none_iff] using fun x hx => ne_of_mem_of_not_mem hx h
  have hfind : (mid ++ c :: post).findIdx? (· == c) = some mid.length := by
    simp [List.findIdx?_append, hmid, List.findIdx?_cons]
  rw [indexOf, List.drop_left, hfind]

theorem indexOf_eq_neg_one {pre mid : Bytes} {c : UInt8} (h : c ∉ mid) :
    indexOf (pre ++ mid) c pre.length = -1 := by
  have hmid : mid.findIdx? (· == c) = none := by
    simpa [List.findIdx?_eq_none_iff] using fun x hx => ne_of_mem_of_not_mem hx h
  rw [indexOf, List.drop_left, hmid]

theorem substring_append (pre mid post : Bytes) :
    substring (pre ++ (mid ++ post)) pre.length (pre.length + mid.length) = mid := by
  have hle : pre.length ≤ pre.length + mid.length := Nat.le_add_right _ _
  rw [substring, Nat.max_eq_right hle, Nat.min_eq_left hle, ← List.append_assoc,
    ← List.length_append, List.take_left, List.drop_left]

theorem lastIndexOf_append_slash {p c : Bytes} (h : slash ∉ c) :
    lastIndexOf (p ++ slash :: c) slash = p.length := by
  have hfind : (p ++ slash :: c).reverse.findIdx? (· == slash) = some c.length := by
    have hnone : c.reverse.findIdx? (· == slash) = none := by
      simpa [List.findIdx?_eq_none_iff] using fun x hx => ne_of_mem_of_not_mem hx h
    simp [List.findIdx?_append, hnone, List.findIdx?_cons]
  simp only [lastIndexOf, hfind]
  simp

/-- A text with a slash has a last one. -/
theorem exists_last_slash {s : Bytes} (h : slash ∈ s) : ∃ p c, s = p ++ slash :: c ∧ slash ∉ c := by
  obtain ⟨as, bs, heq, has⟩ := List.eq_append_cons_of_mem (List.mem_reverse.mpr h)
  refine ⟨bs.reverse, as.reverse, ?_, fun hmem => has (List.mem_reverse.mp hmem)⟩
  rw [← List.reverse_reverse s, heq, List.reverse_append, List.reverse_cons, List.append_assoc,
    List.singleton_append]

theorem lastIndexOf_ne_neg_one {s : Bytes} (h : slash ∈ s) : lastIndexOf s slash ≠ -1 := by
  obtain ⟨p, c, rfl, hc⟩ := exists_last_slash h
  rw [lastIndexOf_append_slash hc]
  exact fun hneg => absurd (hneg ▸ Int.natCast_nonneg p.length) (by decide)

theorem lastIndexOf_eq_neg_one {c : Bytes} (h : slash ∉ c) : lastIndexOf c slash = -1 := by
  have hnone : c.reverse.findIdx? (· == slash) = none := by
    simpa [List.findIdx?_eq_none_iff] using fun x hx => ne_of_mem_of_not_mem hx h
  simp only [lastIndexOf, hnone]

theorem replaceLoop_eq_self {find by_ : Bytes} :
    ∀ {fuel : Nat} {s : Bytes}, ¬ find <:+: s → replaceLoop find by_ fuel s = s
  | 0, _, _ => rfl
  | _ + 1, [], _ => rfl
  | fuel + 1, c :: s, h => by
    have hpre : ¬ find.isPrefixOf (c :: s) = true := by
      rw [List.isPrefixOf_iff_prefix]
      exact fun hp => h hp.isInfix
    have htail : ¬ find <:+: s := fun hs => h (hs.trans (List.infix_cons List.infix_rfl))
    rw [replaceLoop, if_neg hpre, replaceLoop_eq_self htail]

theorem replace_eq_self {s find by_ : Bytes} (h : ¬ find <:+: s) : replace s find by_ = s := by
  rw [replace, replaceLoop_eq_self h, ite_self]

/-- Replacing by something shorter never makes a text longer, and it keeps the
length only of a text it leaves alone. -/
theorem replaceLoop_shorter {find by_ : Bytes} (hshort : by_.length < find.length) :
    ∀ {fuel : Nat} {s : Bytes},
      replaceLoop find by_ fuel s = s ∨ (replaceLoop find by_ fuel s).length < s.length
  | 0, _ => Or.inl rfl
  | _ + 1, [] => Or.inl rfl
  | fuel + 1, c :: s => by
    rw [replaceLoop]
    split
    · next hpre =>
      right
      have hlen : find.length ≤ (c :: s).length := (List.isPrefixOf_iff_prefix.mp hpre).length_le
      have htail : (replaceLoop find by_ fuel ((c :: s).drop find.length)).length ≤
          ((c :: s).drop find.length).length := by
        rcases replaceLoop_shorter hshort with h | h
        · rw [h]
        · exact h.le
      rw [List.length_drop] at htail
      rw [List.length_append]
      omega
    · have htail : replaceLoop find by_ fuel s = s ∨
          (replaceLoop find by_ fuel s).length < s.length := replaceLoop_shorter hshort
      rcases htail with h | h
      · exact Or.inl (by rw [h])
      · exact Or.inr (by simpa using h)

theorem replace_shorter {s find by_ : Bytes} (hshort : by_.length < find.length) :
    replace s find by_ = s ∨ (replace s find by_).length < s.length := by
  rw [replace]
  split
  · exact Or.inl rfl
  · exact replaceLoop_shorter hshort

theorem cstr_eq_self {s : Bytes} (h : 0 ∉ s) : cstr s = s := by
  simpa [cstr, List.takeWhile_eq_self_iff] using fun x hx => ne_of_mem_of_not_mem hx h

theorem cstr_slash_cons (s : Bytes) : cstr (slash :: s) = slash :: cstr s := rfl

theorem zero_notMem_cstr (s : Bytes) : 0 ∉ cstr s := fun h => by
  simpa using List.mem_takeWhile_imp h

theorem cstr_append {s : Bytes} (h : 0 ∉ s) (t : Bytes) : cstr (s ++ t) = s ++ cstr t := by
  unfold cstr
  rw [List.takeWhile_append_of_pos]
  simpa using fun x hx => ne_of_mem_of_not_mem hx h

/-- What comes after a NUL is not seen. -/
theorem cstr_append_of_mem {s : Bytes} (h : 0 ∈ s) (t : Bytes) : cstr (s ++ t) = cstr s := by
  induction s with
  | nil => exact absurd h List.not_mem_nil
  | cons c s ih =>
    unfold cstr at ih ⊢
    rw [List.cons_append, List.takeWhile_cons, List.takeWhile_cons]
    split
    · next hc =>
      have hs : 0 ∈ s := by
        rcases List.mem_cons.mp h with rfl | hs
        · exact absurd hc (by decide)
        · exact hs
      rw [ih hs]
    · rfl

@[simp] theorem length_toBigEndian : ∀ width n, (toBigEndian width n).length = width
  | 0, _ => rfl
  | width + 1, n => by rw [toBigEndian, List.length_append, length_toBigEndian, List.length_singleton]

theorem bigEndian_toBigEndian : ∀ width n, bigEndian (toBigEndian width n) = n % 256 ^ width
  | 0, n => by simp [toBigEndian, bigEndian, Nat.mod_one]
  | width + 1, n => by
    have hrest := bigEndian_toBigEndian width (n / 256)
    have hlast : n % 256 % 2 ^ 8 = n % 256 := Nat.mod_mod n 256
    unfold bigEndian at hrest ⊢
    rw [toBigEndian, List.foldl_append, hrest, List.foldl_cons, List.foldl_nil, UInt8.toNat_ofNat',
      hlast, Nat.pow_succ', Nat.mod_mul]
    omega

end ByteString
