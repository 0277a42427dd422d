import Handheld.HeaderBlock
import Handheld.Numeral

/-!
# Chunked transfer coding

A body of unknown length is sent in chunks, each behind its length in hexadecimal
digits and a line end; an empty one is the last.

Results: `readChunks_chunk`, `readBody_chunks`. The body is read back, with what
follows it.
-/

namespace ChunkedCoding

open ByteString HeaderBlock

/-! ## Definitions -/

/-- A chunk, its length with at least four digits. -/
def chunk (data : Bytes) : Bytes := Numeral.print 16 4 data.length ++ crlf ++ data ++ crlf

/-- A chunk, and what follows it. -/
def readChunk (s : Bytes) : Option (Bytes × Bytes) := do
  let (digits, body) ← readLine s
  let length ← Numeral.read 16 digits
  if body.length < length then none
  else
    let rest ← pastLineEnd (body.drop length)
    some (body.take length, rest)

/-- The data of the chunks up to the empty one, and what follows it. -/
def readChunks : Nat → Bytes → Option (Bytes × Bytes)
  | 0, _ => none
  | fuel + 1, s =>
    match readChunk s with
    | none => none
    | some ([], rest) => some ([], rest)
    | some (data, rest) => (readChunks fuel rest).map fun body => (data ++ body.1, body.2)

def readBody (s : Bytes) : Option (Bytes × Bytes) := readChunks s.length s

/-- Some chunks, none of them empty, and their data. -/
def Chunks (data coded : Bytes) : Prop :=
  ∃ pieces : List Bytes, (∀ piece ∈ pieces, piece ≠ []) ∧ data = pieces.flatten ∧ coded = pieces.flatMap chunk

/-! ## Reading back -/

variable {data coded piece rest : Bytes}

theorem chunks_nil : Chunks [] [] := ⟨[], nofun, rfl, rfl⟩

theorem Chunks.concat (h : Chunks data coded) (hne : piece ≠ []) :
    Chunks (data ++ piece) (coded ++ chunk piece) := by
  obtain ⟨pieces, hpieces, rfl, rfl⟩ := h
  refine ⟨pieces ++ [piece], ?_, ?_, ?_⟩
  · intro x hx
    rcases List.mem_append.mp hx with h | h
    · exact hpieces x h
    · rw [List.mem_singleton.mp h]
      exact hne
  · rw [List.flatten_append, List.flatten_singleton]
  · rw [List.flatMap_append, List.flatMap_singleton]

theorem cr_notMem_print (n : Nat) : cr ∉ Numeral.print 16 4 n := fun h => by
  obtain ⟨d, hd, heq⟩ := Numeral.digit_mem (by decide) (by decide) h
  exact (by decide : ∀ d < 16, cr ≠ Numeral.digit d) d hd heq

theorem readChunk_chunk (data rest : Bytes) : readChunk (chunk data ++ rest) = some (data, rest) := by
  have hsplit : chunk data ++ rest = Numeral.print 16 4 data.length ++ (crlf ++ (data ++ (crlf ++ rest))) := by
    simp only [chunk, List.append_assoc]
  have hlong : ¬ (data ++ (crlf ++ rest)).length < data.length := by
    rw [List.length_append]
    exact Nat.not_lt.mpr (Nat.le_add_right _ _)
  unfold readChunk
  rw [hsplit, readLine_crlf (cr_notMem_print _)]
  simp only [Option.bind_eq_bind, Option.bind_some, Numeral.read_print (n := data.length) (by decide : 1 < 16)
    (by decide) (by decide : 0 < 4), List.drop_left, List.take_left, pastLineEnd_crlf, if_neg hlong]

theorem length_chunk (data : Bytes) : 0 < (chunk data).length := by
  simp only [chunk, crlf, List.length_append, List.length_cons]
  omega

theorem readChunks_chunk : ∀ (pieces : List Bytes), (∀ piece ∈ pieces, piece ≠ []) → ∀ {fuel : Nat},
    pieces.length < fuel →
    readChunks fuel (pieces.flatMap chunk ++ (chunk [] ++ rest)) = some (pieces.flatten, rest)
  | [], _, fuel + 1, _ => by
    rw [List.flatMap_nil, List.nil_append]
    unfold readChunks
    rw [readChunk_chunk]
    rfl
  | piece :: pieces, hpieces, fuel + 1, hfuel => by
    have hrest := readChunks_chunk pieces (fun x hx => hpieces x (List.mem_cons_of_mem _ hx))
      (Nat.lt_of_succ_lt_succ hfuel)
    obtain ⟨a, tail, rfl⟩ := List.exists_cons_of_ne_nil (hpieces piece List.mem_cons_self)
    rw [List.flatMap_cons, List.append_assoc]
    unfold readChunks
    rw [readChunk_chunk]
    dsimp only
    rw [hrest, Option.map_some, List.flatten_cons]

theorem length_le_flatMap_chunk (pieces : List Bytes) : pieces.length ≤ (pieces.flatMap chunk).length := by
  induction pieces with
  | nil => exact Nat.le_refl 0
  | cons piece pieces ih =>
    rw [List.flatMap_cons, List.length_append, List.length_cons, Nat.add_comm]
    exact Nat.add_le_add (length_chunk piece) ih

theorem readBody_chunks (h : Chunks data coded) (rest : Bytes) :
    readBody (coded ++ chunk [] ++ rest) = some (data, rest) := by
  obtain ⟨pieces, hpieces, rfl, rfl⟩ := h
  unfold readBody
  rw [List.append_assoc]
  refine readChunks_chunk pieces hpieces ?_
  rw [List.length_append, List.length_append]
  exact Nat.lt_of_le_of_lt (length_le_flatMap_chunk pieces)
    (Nat.lt_add_of_pos_right (Nat.add_pos_left (length_chunk []) _))

end ChunkedCoding
