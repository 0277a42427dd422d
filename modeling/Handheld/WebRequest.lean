import Handheld.PercentCoding

/-!
# What the web server makes of a request (`ESPAsyncWebServer/src/WebRequest.cpp`)

The two parts of `AsyncWebServerRequest` that the handlers of the application
depend on: the parameters of the query string, each decoded once
(`addGetParams`), and the calls of the upload callback for one file of a
multipart body (`deliver`).

Results:
1. `addGetParams_queryString`: a query string written by the standard encoding
   is read back exactly.
2. `deliver_inOrder`, `deliver_data`: the upload callback sees the bytes of the
   file in order, cut into chunks of which only the last can be empty, and is
   not called at all for an empty file.
-/

namespace Handheld

open ByteString PercentCoding

namespace AsyncWebServerRequest

/-! ## Parameters -/

/-- `AsyncWebParameter`. -/
structure Param where
  name : Bytes
  value : Bytes
  isPost : Bool
  isFile : Bool
deriving DecidableEq, Repr

/-- `AsyncWebServerRequest::urlDecode`. -/
def urlDecode (text : Bytes) : Bytes := decode text

/-- The `while` loop of `_addGetParams` from `start`. -/
def addGetParamsLoop (params : Bytes) : Nat → Nat → List Param
  | 0, _ => []
  | fuel + 1, start =>
    if start < params.length then
      let amp := indexOf params ampersand start
      let end_ := if amp < 0 then params.length else amp.toNat
      let eq := indexOf params equals start
      let equal := if eq < 0 ∨ (end_ : Int) < eq then end_ else eq.toNat
      let name := urlDecode (substring params start equal)
      let value := urlDecode (if equal + 1 < end_ then substring params (equal + 1) end_ else [])
      (if name = [] then [] else [⟨name, value, false, false⟩]) ++
        addGetParamsLoop params fuel (end_ + 1)
    else []

/-- `_addGetParams`. Every turn moves `start` on, so the length bounds the turns. -/
def addGetParams (params : Bytes) : List Param :=
  addGetParamsLoop params (params.length + 1) 0

/-- `getParam(name, post, file)`; `hasParam` is that it answers. -/
def getParam (params : List Param) (name : Bytes) (post : Bool) : Option Param :=
  params.find? fun p => p.name == name && p.isPost == post && !p.isFile

/-- One `name=value` field in the standard encoding. -/
def queryField (kv : Bytes × Bytes) : Bytes := encode kv.1 ++ equals :: encode kv.2

/-- The query string a client writes for a list of names and values. -/
def queryString (kvs : List (Bytes × Bytes)) : Bytes :=
  [ampersand].intercalate (kvs.map queryField)

def queryParam (kv : Bytes × Bytes) : Param := ⟨kv.1, kv.2, false, false⟩

/-! ## Upload chunks -/

/-- One call of the upload callback. -/
structure Chunk where
  index : Nat
  data : Bytes
  final : Bool
deriving DecidableEq, Repr

/-- `RESPONSE_STREAM_BUFFER_SIZE`. -/
def bufferSize : Nat := 1460

/-- The members `_itemSize` and `_itemBuffer` (with its fill index). -/
structure ItemState where
  itemSize : Nat
  itemBuffer : Bytes
deriving DecidableEq, Repr

/-- `_itemSize++` and `_handleUploadByte(data, last)`: the byte is buffered, and
the buffer is handed over when it is full or the TCP packet ends. -/
def handleUploadByte (s : ItemState) (data : UInt8) (last : Bool) : ItemState × List Chunk :=
  let itemSize := s.itemSize + 1
  let itemBuffer := s.itemBuffer ++ [data]
  if last ∨ itemBuffer.length = bufferSize then
    (⟨itemSize, []⟩, [⟨itemSize - itemBuffer.length, itemBuffer, false⟩])
  else (⟨itemSize, itemBuffer⟩, [])

/-- The bytes of one file and, after them, the closing boundary: the final call
is made only `if (_itemSize)`. -/
def deliverFrom (s : ItemState) : List (UInt8 × Bool) → List Chunk
  | [] =>
    if s.itemSize = 0 then []
    else [⟨s.itemSize - s.itemBuffer.length, s.itemBuffer, true⟩]
  | (data, last) :: bytes =>
    let next := handleUploadByte s data last
    next.2 ++ deliverFrom next.1 bytes

/-- The calls of the upload callback for a file, each byte with the flag whether
it is the last of its packet. -/
def deliver (bytes : List (UInt8 × Bool)) : List Chunk := deliverFrom ⟨0, []⟩ bytes

/-- Chunks that continue a file from offset `index`: the data adjoin, only the
last is final, and a chunk that is not final is not empty. -/
inductive InOrder : Nat → List Chunk → Prop
  | final {index : Nat} {data : Bytes} : InOrder index [⟨index, data, true⟩]
  | cons {index : Nat} {data : Bytes} {cs : List Chunk} :
      data ≠ [] → InOrder (index + data.length) cs → InOrder index (⟨index, data, false⟩ :: cs)

/-! ## 1. The query string round trip -/

theorem ampersand_not_mem_queryField (kv : Bytes × Bytes) : ampersand ∉ queryField kv := by
  rw [queryField, List.mem_append, List.mem_cons]
  rintro (h | h | h)
  · exact encode_no_separator.1 h
  · exact absurd h (by decide)
  · exact encode_no_separator.1 h

theorem addGetParamsLoop_end {params : Bytes} {start : Nat} (h : params.length ≤ start) :
    ∀ fuel, addGetParamsLoop params fuel start = []
  | 0 => rfl
  | _ + 1 => by rw [addGetParamsLoop, if_neg (by omega)]

section field

variable {pre rest : Bytes} (k v : Bytes)

theorem queryField_eq : queryField (k, v) = encode k ++ equals :: encode v := rfl

theorem length_queryField :
    (queryField (k, v)).length = (encode k).length + 1 + (encode v).length := by
  rw [queryField_eq, List.length_append, List.length_cons]
  omega

/-- Where the loop takes a field to end, that is at the next `&` or with the text. -/
theorem fieldEnd (hrest : rest = [] ∨ ∃ post, rest = ampersand :: post) (kv : Bytes × Bytes) :
    (if indexOf (pre ++ (queryField kv ++ rest)) ampersand pre.length < 0
      then (pre ++ (queryField kv ++ rest)).length
      else (indexOf (pre ++ (queryField kv ++ rest)) ampersand pre.length).toNat) =
        pre.length + (queryField kv).length := by
  rcases hrest with rfl | ⟨post, rfl⟩
  · rw [List.append_nil, indexOf_eq_neg_one (ampersand_not_mem_queryField _), if_pos (by decide),
      List.length_append]
  · rw [indexOf_append (ampersand_not_mem_queryField _), if_neg (by omega), Int.toNat_natCast]

/-- The `=` of a field is the one after its name. -/
theorem fieldEqual :
    indexOf (pre ++ (queryField (k, v) ++ rest)) equals pre.length =
      ((pre.length + (encode k).length : Nat) : Int) := by
  rw [queryField_eq, List.append_assoc, List.cons_append]
  exact indexOf_append encode_no_separator.2 _

theorem fieldName :
    substring (pre ++ (queryField (k, v) ++ rest)) pre.length (pre.length + (encode k).length) =
      encode k := by
  rw [queryField_eq, List.append_assoc]
  exact substring_append _ _ _

/-- The value is what follows the `=`, if anything does. -/
theorem fieldValue :
    (if pre.length + (encode k).length + 1 < pre.length + (queryField (k, v)).length
      then substring (pre ++ (queryField (k, v) ++ rest)) (pre.length + (encode k).length + 1)
        (pre.length + (queryField (k, v)).length)
      else []) = encode v := by
  have hcut := substring_append (pre ++ (encode k ++ [equals])) (encode v) rest
  have hlen : (pre ++ (encode k ++ [equals])).length = pre.length + (encode k).length + 1 := by
    simp only [List.length_append, List.length_singleton, Nat.add_assoc]
  have htotal : pre.length + (queryField (k, v)).length =
      pre.length + (encode k).length + 1 + (encode v).length := by
    rw [length_queryField]
    omega
  have htext : pre ++ (queryField (k, v) ++ rest) =
      pre ++ (encode k ++ [equals]) ++ (encode v ++ rest) := by
    simp [queryField_eq]
  split
  · rw [htotal, htext, ← hlen, hcut]
  · next h => exact (List.eq_nil_of_length_eq_zero (by omega)).symm

end field

/-- One turn of the loop, over one field that the end or a `&` follows. -/
theorem addGetParamsLoop_field {pre rest : Bytes} (kv : Bytes × Bytes)
    (hrest : rest = [] ∨ ∃ post, rest = ampersand :: post) (fuel : Nat) :
    addGetParamsLoop (pre ++ (queryField kv ++ rest)) (fuel + 1) pre.length =
      (if kv.1 = [] then [] else [queryParam kv]) ++
        addGetParamsLoop (pre ++ (queryField kv ++ rest)) fuel
          (pre.length + (queryField kv).length + 1) := by
  obtain ⟨k, v⟩ := kv
  have hlength := length_queryField k v
  have hstart : pre.length < (pre ++ (queryField (k, v) ++ rest)).length := by
    simp only [List.length_append]
    omega
  have hbranch : ¬ (((pre.length + (encode k).length : Nat) : Int) < 0 ∨
      ((pre.length + (queryField (k, v)).length : Nat) : Int) <
        ((pre.length + (encode k).length : Nat) : Int)) := by
    omega
  rw [addGetParamsLoop, if_pos hstart]
  simp only [fieldEnd hrest, fieldEqual, if_neg hbranch, Int.toNat_natCast, fieldName, fieldValue,
    urlDecode, decode_encode]
  rfl

/-- The loop over the rest of a query string. -/
theorem addGetParamsLoop_queryString {kvs : List (Bytes × Bytes)} :
    ∀ {pre : Bytes} {fuel : Nat}, (queryString kvs).length < fuel →
      addGetParamsLoop (pre ++ queryString kvs) fuel pre.length =
        (kvs.filter (·.1 ≠ [])).map queryParam := by
  induction kvs with
  | nil =>
    intro pre fuel h
    obtain ⟨fuel, rfl⟩ : ∃ n, fuel = n + 1 := ⟨fuel - 1, by omega⟩
    exact addGetParamsLoop_end (by simp [queryString]) _
  | cons kv kvs ih =>
    intro pre fuel h
    obtain ⟨fuel, rfl⟩ : ∃ n, fuel = n + 1 := ⟨fuel - 1, by omega⟩
    have hhead : (kv :: kvs).filter (·.1 ≠ []) =
        (if kv.1 = [] then [] else [kv]) ++ kvs.filter (·.1 ≠ []) := by
      by_cases hk : kv.1 = [] <;> simp [hk]
    have hpush : ((if kv.1 = [] then [] else [kv]).map queryParam : List Param) =
        if kv.1 = [] then [] else [queryParam kv] := by
      split <;> rfl
    rw [hhead, List.map_append, hpush]
    cases kvs with
    | nil =>
      have hquery : queryString [kv] = queryField kv ++ [] := by simp [queryString]
      rw [hquery, addGetParamsLoop_field kv (Or.inl rfl)]
      rw [addGetParamsLoop_end (by simp), List.filter_nil, List.map_nil]
    | cons kv' kvs =>
      have hquery : queryString (kv :: kv' :: kvs) =
          queryField kv ++ ampersand :: queryString (kv' :: kvs) := by
        simp [queryString]
      have hnext : pre ++ (queryField kv ++ ampersand :: queryString (kv' :: kvs)) =
          (pre ++ (queryField kv ++ [ampersand])) ++ queryString (kv' :: kvs) := by simp
      have hlen : (pre ++ (queryField kv ++ [ampersand])).length =
          pre.length + (queryField kv).length + 1 := by
        simp [Nat.add_assoc]
      rw [hquery] at h ⊢
      rw [addGetParamsLoop_field kv (Or.inr ⟨_, rfl⟩), hnext, ← hlen, ih]
      simp only [List.length_append, List.length_cons] at h
      omega

/-- A query string in the standard encoding is read back field by field. -/
theorem addGetParams_queryString (kvs : List (Bytes × Bytes)) :
    addGetParams (queryString kvs) = (kvs.filter (·.1 ≠ [])).map queryParam := by
  have h : addGetParamsLoop ([] ++ queryString kvs) ((queryString kvs).length + 1) 0 =
      (kvs.filter (·.1 ≠ [])).map queryParam := addGetParamsLoop_queryString (Nat.lt_succ_self _)
  simpa [addGetParams] using h

/-! ## 2. Chunks -/

theorem deliverFrom_data (bytes : List (UInt8 × Bool)) : ∀ s : ItemState,
    s.itemBuffer.length ≤ s.itemSize →
      (deliverFrom s bytes).flatMap Chunk.data = s.itemBuffer ++ bytes.map Prod.fst := by
  induction bytes with
  | nil =>
    intro s hs
    rw [deliverFrom]
    split
    · next h =>
      have hempty : s.itemBuffer = [] := List.eq_nil_of_length_eq_zero (by omega)
      simp [hempty]
    · simp
  | cons b bytes ih =>
    intro s hs
    obtain ⟨data, last⟩ := b
    simp only [deliverFrom, handleUploadByte]
    split
    · have hrest := ih ⟨s.itemSize + 1, []⟩ (Nat.zero_le _)
      simp [hrest]
    · have hrest := ih ⟨s.itemSize + 1, s.itemBuffer ++ [data]⟩ (by simpa using hs)
      simpa using hrest

/-- The chunks carry exactly the bytes of the file, in order. -/
theorem deliver_data (bytes : List (UInt8 × Bool)) :
    (deliver bytes).flatMap Chunk.data = bytes.map Prod.fst := by
  simpa [deliver] using deliverFrom_data bytes ⟨0, []⟩ (Nat.zero_le _)

theorem deliverFrom_inOrder (bytes : List (UInt8 × Bool)) : ∀ s : ItemState,
    s.itemBuffer.length ≤ s.itemSize → (s.itemSize ≠ 0 ∨ bytes ≠ []) →
      InOrder (s.itemSize - s.itemBuffer.length) (deliverFrom s bytes) := by
  induction bytes with
  | nil =>
    intro s _ hne
    have hsize : s.itemSize ≠ 0 := by simpa using hne
    rw [deliverFrom, if_neg hsize]
    exact .final
  | cons b bytes ih =>
    intro s hs _
    obtain ⟨data, last⟩ := b
    simp only [deliverFrom, handleUploadByte, List.length_append, List.length_singleton,
      Nat.add_sub_add_right]
    split
    · refine .cons (by simp) ?_
      have hoff : s.itemSize - s.itemBuffer.length + (s.itemBuffer ++ [data]).length =
          s.itemSize + 1 := by
        rw [List.length_append, List.length_singleton]
        omega
      rw [hoff]
      exact ih ⟨s.itemSize + 1, []⟩ (Nat.zero_le _) (Or.inl (Nat.succ_ne_zero _))
    · have hrest := ih ⟨s.itemSize + 1, s.itemBuffer ++ [data]⟩ (by simpa using hs)
        (Or.inl (Nat.succ_ne_zero _))
      simpa using hrest

/-- Only the first of a run of chunks has the index it starts from. -/
theorem InOrder.index {n : Nat} {cs : List Chunk} (h : InOrder n cs) :
    ∃ c rest, cs = c :: rest ∧ c.index = n ∧ ∀ d ∈ rest, n < d.index := by
  induction h with
  | final => exact ⟨_, [], rfl, rfl, by simp⟩
  | @cons n data cs hdata _ ih =>
    obtain ⟨c, rest, rfl, hindex, hrest⟩ := ih
    have hlen : 0 < data.length := List.length_pos_of_ne_nil hdata
    refine ⟨_, _, rfl, rfl, fun d hd => ?_⟩
    rcases List.mem_cons.mp hd with rfl | hd
    · omega
    · have hd' := hrest d hd
      omega

/-- However the packets cut a file that is not empty, its chunks are in order. -/
theorem deliver_inOrder {bytes : List (UInt8 × Bool)} (h : bytes ≠ []) :
    InOrder 0 (deliver bytes) := by
  simpa [deliver] using deliverFrom_inOrder bytes ⟨0, []⟩ (Nat.le_refl _) (Or.inr h)

/-- The callback is never called for an empty file. -/
theorem deliver_nil : deliver [] = [] := rfl

end AsyncWebServerRequest

end Handheld
