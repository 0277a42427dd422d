import Mathlib.Data.List.Infix

/-!
# Finding a delimiter in a stream

A delimiter whose first symbol occurs nowhere else in it can be found with a
counter alone: where a symbol does not fit, those that fitted so far are data, and
the symbol itself is looked at as if it were the first.

Result: `reads_of_not_infix`. Data in which the delimiter does not occur is read
back as it is, and the delimiter is found at its end and not before.
-/

namespace DelimiterScan

variable {α : Type}

structure Delimiter (α : Type) where
  first : α
  rest : List α
  fresh : first ∉ rest

namespace Delimiter

def text (d : Delimiter α) : List α := d.first :: d.rest

variable (d : Delimiter α)

/-- After `matched` symbols of the delimiter the stream goes on with the rest of
some data and ends with the delimiter, which is not found before. -/
inductive Reads : Nat → List α → List α → Prop
  | found {matched : Nat} {a : α} : d.text[matched]? = some a → matched + 1 = d.text.length →
      Reads matched [a] []
  | fits {matched : Nat} {a : α} {stream data : List α} : d.text[matched]? = some a →
      matched + 1 < d.text.length → Reads (matched + 1) stream data → Reads matched (a :: stream) data
  | restart {matched : Nat} {stream data : List α} : 0 < matched →
      d.text[matched]? ≠ some d.first → Reads 1 stream data →
      Reads matched (d.first :: stream) (d.text.take matched ++ data)
  | skip {matched : Nat} {a : α} {stream data : List α} : d.text[matched]? ≠ some a → a ≠ d.first →
      Reads 0 stream data → Reads matched (a :: stream) (d.text.take matched ++ a :: data)

variable {d}

theorem text_ne_first {i : Nat} (hi : 0 < i) : d.text[i]? ≠ some d.first := by
  obtain ⟨j, rfl⟩ := Nat.exists_eq_succ_of_ne_zero (Nat.pos_iff_ne_zero.mp hi)
  intro h
  exact d.fresh (List.mem_of_getElem? h)

/-- Where the delimiter begins in the stream. -/
theorem getElem_content (content : List α) : (content ++ d.text)[content.length]? = some d.first := by
  rw [List.getElem?_append_right (Nat.le_refl _), Nat.sub_self]
  rfl

/-- What was matched and did not go on is data. -/
theorem matched_le {matched : Nat} {a : α} {stream content : List α} (hmatched : matched < d.text.length)
    (hstream : d.text.take matched ++ a :: stream = content ++ d.text)
    (hne : d.text[matched]? ≠ some a) : matched ≤ content.length := by
  by_contra hlt
  have hinside : content.length < matched := Nat.not_le.mp hlt
  have hfirst := getElem_content (d := d) content
  have htake : (d.text.take matched).length = matched := List.length_take_of_le (Nat.le_of_lt hmatched)
  rw [← hstream, List.getElem?_append_left (by rwa [htake]), List.getElem?_take_of_lt hinside] at hfirst
  rcases Nat.eq_zero_or_pos content.length with hzero | hpos
  · -- the stream is the delimiter, and goes on as it does
    rw [List.length_eq_zero_iff.mp hzero, List.nil_append] at hstream
    refine hne ?_
    conv_lhs => rw [← hstream]
    rw [List.getElem?_append_right (Nat.le_of_eq htake), htake, Nat.sub_self]
    rfl
  · exact text_ne_first hpos hfirst

theorem reads_of_matched {stream : List α} {matched : Nat} {content : List α}
    (hmatched : matched < d.text.length) (hstream : d.text.take matched ++ stream = content ++ d.text)
    (hcontent : ¬ d.text <:+: content) : d.Reads matched stream content := by
  induction stream generalizing matched content with
  | nil =>
    have hlength := congrArg List.length hstream
    rw [List.append_nil, List.length_append, List.length_take_of_le (Nat.le_of_lt hmatched)] at hlength
    omega
  | cons a stream ih =>
    by_cases hfits : d.text[matched]? = some a
    · have hnext : d.text.take (matched + 1) ++ stream = content ++ d.text := by
        rw [List.take_add_one, hfits, List.append_assoc]
        exact hstream
      rcases Nat.lt_or_eq_of_le (Nat.succ_le_of_lt hmatched) with hmore | hall
      · exact .fits hfits hmore (ih hmore hnext hcontent)
      · rw [List.take_of_length_le (Nat.le_of_eq hall.symm)] at hnext
        -- the delimiter is at the start of the stream, so that there is no data
        obtain rfl : content = [] := by
          by_contra hne
          have hpos := List.length_pos_iff.mpr hne
          rcases Nat.lt_or_ge content.length d.text.length with hlt | hge
          · have hfirst := getElem_content (d := d) content
            rw [← hnext, List.getElem?_append_left hlt] at hfirst
            exact text_ne_first hpos hfirst
          · have hprefix : d.text <+: content ++ d.text := ⟨stream, hnext⟩
            exact hcontent (List.prefix_of_prefix_length_le hprefix (List.prefix_append _ _) hge).isInfix
        obtain rfl : stream = [] := by simpa using hnext
        exact .found hfits hall
    · have hle := matched_le hmatched hstream hfits
      have htake : (d.text.take matched).length = matched :=
        List.length_take_of_le (Nat.le_of_lt hmatched)
      obtain ⟨more, rfl⟩ : d.text.take matched <+: content := by
        refine List.prefix_of_prefix_length_le ⟨a :: stream, hstream⟩ (List.prefix_append _ _) ?_
        rwa [htake]
      have hrest : a :: stream = more ++ d.text := by
        rwa [List.append_assoc, List.append_cancel_left_eq] at hstream
      by_cases hfirst : a = d.first
      · subst hfirst
        have hpos : 0 < matched := Nat.pos_of_ne_zero fun hzero => hfits (by rw [hzero]; rfl)
        refine .restart hpos hfits (ih (by omega) hrest fun hwithin => ?_)
        exact hcontent (hwithin.trans (List.suffix_append _ _).isInfix)
      · cases more with
        | nil => exact absurd (List.cons.inj hrest).1 hfirst
        | cons b more =>
          obtain ⟨rfl, htail⟩ := List.cons.inj hrest
          refine .skip hfits hfirst (ih (Nat.zero_lt_of_lt hmatched) htail fun hwithin => ?_)
          refine hcontent (hwithin.trans ⟨d.text.take matched ++ [a], [], ?_⟩)
          simp

/-- Data in which the delimiter does not occur is read back. -/
theorem reads_of_not_infix {content : List α} (h : ¬ d.text <:+: content) :
    d.Reads 0 (content ++ d.text) content :=
  reads_of_matched (Nat.succ_pos _) rfl h

end Delimiter

end DelimiterScan
