import Handheld.ChunkedCoding

/-!
# Reading an HTTP response

What a client makes of the bytes of a connection: a status line, header fields, and
a body that is chunked, or as long as a field says, or ends with the connection.

Results: `readHead_head`, `readMessage_sized`, `readMessage_chunked`. What was written
is read, up to the last byte of the body.
-/

namespace HttpMessage

open ByteString HeaderBlock

/-! ## Definitions -/

structure Head where
  version : Nat
  code : Nat
  reason : Bytes
  fields : List (Bytes × Bytes)
deriving DecidableEq

structure Message extends Head where
  body : Bytes
deriving DecidableEq

def protocol : Bytes := ascii "HTTP/1."

def statusLine (version code : Nat) (reason : Bytes) : Bytes :=
  protocol ++ (Numeral.print 10 1 version ++ blank :: (Numeral.print 10 1 code ++ blank :: reason))

def Head.text (h : Head) : Bytes :=
  lines (statusLine h.version h.code h.reason :: h.fields.map fun f => field f.1 f.2)

def readStatus (line : Bytes) : Option (Nat × Nat × Bytes) := do
  let rest := line.drop protocol.length
  let version ← Numeral.read 10 (rest.takeWhile (· ≠ blank))
  let rest := (rest.dropWhile (· ≠ blank)).drop 1
  let code ← Numeral.read 10 (rest.takeWhile (· ≠ blank))
  some (version, code, (rest.dropWhile (· ≠ blank)).drop 1)

def readHead (s : Bytes) : Option (Head × Bytes) :=
  match readLines s.length s with
  | some (status :: rows, rest) => do
    let (version, code, reason) ← readStatus status
    let fields ← rows.mapM readField
    some (⟨version, code, reason, fields⟩, rest)
  | _ => none

/-- The fields of one name, which has no case. -/
def Head.values (h : Head) (name : Bytes) : List Bytes :=
  (h.fields.filter fun f => equalsIgnoreCase f.1 name).map (·.2)

/-- A message, and what follows it. -/
def readMessage (s : Bytes) : Option (Message × Bytes) := do
  let (head, rest) ← readHead s
  if head.values (ascii "transfer-encoding") = [ascii "chunked"] then
    let (body, rest) ← ChunkedCoding.readBody rest
    some (⟨head, body⟩, rest)
  else
    match head.values (ascii "content-length") with
    | [] => some (⟨head, rest⟩, [])
    | [value] => do
      let length ← Numeral.read 10 value
      if rest.length < length then none else some (⟨head, rest.take length⟩, rest.drop length)
    | _ => none

/-- What can be told apart in the lines of a head. -/
structure Head.WellFormed (h : Head) : Prop where
  reason : cr ∉ h.reason
  fields : ∀ f ∈ h.fields, colon ∉ f.1 ∧ cr ∉ f.1 ∧ cr ∉ f.2

/-! ## Reading back -/

variable {h : Head} {rest : Bytes}

theorem notMem_print {c : UInt8} (hc : c = cr ∨ c = blank) (n : Nat) : c ∉ Numeral.print 10 1 n := fun hmem => by
  obtain ⟨d, hd, heq⟩ := Numeral.digit_mem (by decide) (by decide) hmem
  have hne := (by decide : ∀ d < 16, cr ≠ Numeral.digit d ∧ blank ≠ Numeral.digit d) d hd
  rcases hc with rfl | rfl
  · exact hne.1 heq
  · exact hne.2 heq

theorem read_print (n : Nat) : Numeral.read 10 (Numeral.print 10 1 n) = some n :=
  Numeral.read_print (by decide) (by decide) (by decide) n

theorem readStatus_statusLine (version code : Nat) (reason : Bytes) :
    readStatus (statusLine version code reason) = some (version, code, reason) := by
  have hversion := takeWhile_ne (notMem_print (.inr rfl) version) (Numeral.print 10 1 code ++ blank :: reason)
  have hcode := takeWhile_ne (notMem_print (.inr rfl) code) reason
  unfold readStatus statusLine
  dsimp only
  rw [List.drop_left, hversion.1, hversion.2, List.drop_one, List.tail_cons, hcode.1, hcode.2, List.drop_one,
    List.tail_cons, read_print, read_print]
  rfl

theorem Head.WellFormed.line (hwell : h.WellFormed) :
    ∀ line ∈ statusLine h.version h.code h.reason :: h.fields.map (fun f => field f.1 f.2),
      line ≠ [] ∧ cr ∉ line := by
  intro line hline
  rcases List.mem_cons.mp hline with rfl | hmem
  · refine ⟨List.append_ne_nil_of_left_ne_nil (by decide) _, ?_⟩
    unfold statusLine
    simp only [List.mem_append, List.mem_cons, not_or]
    exact ⟨by decide, notMem_print (.inl rfl) _, by decide, notMem_print (.inl rfl) _, by decide, hwell.reason⟩
  · obtain ⟨f, hf, rfl⟩ := List.mem_map.mp hmem
    obtain ⟨-, hname, hvalue⟩ := hwell.fields f hf
    refine ⟨List.append_ne_nil_of_right_ne_nil _ (List.cons_ne_nil _ _), ?_⟩
    unfold field
    simp only [List.mem_append, List.mem_cons, not_or]
    exact ⟨hname, by decide, by decide, hvalue⟩

theorem mapM_readField {fields : List (Bytes × Bytes)} (hfields : ∀ f ∈ fields, colon ∉ f.1) :
    (fields.map fun f => field f.1 f.2).mapM readField = some fields := by
  induction fields with
  | nil => rfl
  | cons f fields ih =>
    rw [List.map_cons, List.mapM_cons, readField_field (hfields f List.mem_cons_self),
      ih fun g hg => hfields g (List.mem_cons_of_mem _ hg)]
    rfl

theorem readHead_head (hwell : h.WellFormed) (rest : Bytes) : readHead (h.text ++ rest) = some (h, rest) := by
  have hlength : (statusLine h.version h.code h.reason :: h.fields.map fun f => field f.1 f.2).length <
      (h.text ++ rest).length := by
    rw [List.length_append]
    exact Nat.lt_of_lt_of_le (length_le_lines _) (Nat.le_add_right _ _)
  have hread : readLines (h.text ++ rest).length (h.text ++ rest) = _ := readLines_lines _ hwell.line hlength
  unfold readHead
  rw [hread]
  dsimp only
  rw [readStatus_statusLine, mapM_readField fun f hf => (hwell.fields f hf).1]
  rfl

theorem readMessage_chunked {body coded : Bytes} (hwell : h.WellFormed)
    (hchunked : h.values (ascii "transfer-encoding") = [ascii "chunked"])
    (hbody : ChunkedCoding.Chunks body coded) (rest : Bytes) :
    readMessage (h.text ++ (coded ++ ChunkedCoding.chunk [] ++ rest)) = some (⟨h, body⟩, rest) := by
  unfold readMessage
  rw [readHead_head hwell]
  simp only [Option.bind_eq_bind, Option.bind_some]
  rw [if_pos hchunked, ChunkedCoding.readBody_chunks hbody, Option.bind_some]

theorem readMessage_sized {body : Bytes} (hwell : h.WellFormed)
    (hplain : h.values (ascii "transfer-encoding") = [])
    (hlength : h.values (ascii "content-length") = [Numeral.print 10 1 body.length]) (rest : Bytes) :
    readMessage (h.text ++ (body ++ rest)) = some (⟨h, body⟩, rest) := by
  have hlong : ¬ (body ++ rest).length < body.length := by
    rw [List.length_append]
    exact Nat.not_lt.mpr (Nat.le_add_right _ _)
  unfold readMessage
  rw [readHead_head hwell]
  simp only [Option.bind_eq_bind, Option.bind_some]
  rw [hplain, if_neg (List.cons_ne_nil _ _).symm, hlength]
  dsimp only
  rw [read_print, Option.bind_some, if_neg hlong, List.take_left, List.drop_left]

end HttpMessage
