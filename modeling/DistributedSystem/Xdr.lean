import Mathlib.Tactic

/-!
# External data representation

A routine of the XDR library writes the object it is given to a stream, or reads it from
there, or frees what belongs to it, depending on the operation of the stream. The primitives
follow RFC 4506: numbers are big-endian in units of four bytes, and counted byte strings
have their length before them and are filled up with zeros to a full unit.

A stream that encodes has room for everything. Whether `XDR_INLINE` finds that the bytes it
is asked for lie in one piece of the stream's buffer depends on that buffer, and is given
here by one answer for each time it is asked.
-/
namespace DistributedSystem.Xdr

/-! ## Numbers as bytes -/

/-- The lowest `k` bytes of a number, the highest of them first. -/
def bigEndian : ℕ → ℕ → List UInt8
  | 0, _ => []
  | k + 1, n => UInt8.ofNat (n / 256 ^ k) :: bigEndian k n

def ofBigEndian (bytes : List UInt8) : ℕ := bytes.foldl (fun n b => n * 256 + b.toNat) 0

@[simp] theorem length_bigEndian (k n : ℕ) : (bigEndian k n).length = k := by
  induction k with
  | zero => rfl
  | succ k ih => rw [bigEndian, List.length_cons, ih]

lemma foldl_bigEndian (k n m : ℕ) :
    (bigEndian k n).foldl (fun n b => n * 256 + b.toNat) m = m * 256 ^ k + n % 256 ^ k := by
  induction k generalizing m with
  | zero => simp [bigEndian, Nat.mod_one]
  | succ k ih =>
    have hdigit : (UInt8.ofNat (n / 256 ^ k)).toNat = n / 256 ^ k % 256 := by simp
    rw [bigEndian, List.foldl_cons, ih, hdigit, Nat.mod_pow_succ]
    ring

theorem ofBigEndian_bigEndian (k n : ℕ) : ofBigEndian (bigEndian k n) = n % 256 ^ k := by
  rw [ofBigEndian, foldl_bigEndian]
  simp

lemma foldl_lt (bytes : List UInt8) (m : ℕ) :
    bytes.foldl (fun n b => n * 256 + b.toNat) m < (m + 1) * 256 ^ bytes.length := by
  induction bytes generalizing m with
  | nil => simp
  | cons b bytes ih =>
    have hb : m * 256 + b.toNat + 1 ≤ (m + 1) * 256 := by
      have := b.toNat_lt
      omega
    calc (b :: bytes).foldl (fun n b => n * 256 + b.toNat) m
        < (m * 256 + b.toNat + 1) * 256 ^ bytes.length := ih (m * 256 + b.toNat)
      _ ≤ (m + 1) * 256 * 256 ^ bytes.length := Nat.mul_le_mul_right _ hb
      _ = (m + 1) * 256 ^ (b :: bytes).length := by rw [List.length_cons, pow_succ]; ring

theorem ofBigEndian_lt (bytes : List UInt8) : ofBigEndian bytes < 256 ^ bytes.length := by
  simpa [ofBigEndian] using foldl_lt bytes 0

lemma foldl_eq_add (bytes : List UInt8) (m : ℕ) :
    bytes.foldl (fun n b => n * 256 + b.toNat) m =
      m * 256 ^ bytes.length + ofBigEndian bytes := by
  induction bytes generalizing m with
  | nil => simp [ofBigEndian]
  | cons b bytes ih =>
    have hzero : ofBigEndian (b :: bytes) = b.toNat * 256 ^ bytes.length + ofBigEndian bytes := by
      rw [ofBigEndian, List.foldl_cons, ih, Nat.zero_mul, Nat.zero_add]
    rw [List.foldl_cons, ih, hzero, List.length_cons, pow_succ]
    ring

theorem ofBigEndian_cons (b : UInt8) (bytes : List UInt8) :
    ofBigEndian (b :: bytes) = b.toNat * 256 ^ bytes.length + ofBigEndian bytes := by
  rw [ofBigEndian, List.foldl_cons, foldl_eq_add, Nat.zero_mul, Nat.zero_add]

theorem ofBigEndian_replicate_zero (k : ℕ) : ofBigEndian (List.replicate k 0) = 0 := by
  induction k with
  | zero => rfl
  | succ k ih =>
    rw [List.replicate_succ, ofBigEndian_cons, ih]
    simp

/-- Byte strings of one length have the order of their numbers. -/
theorem ofBigEndian_lt_iff {l l' : List UInt8} (h : l.length = l'.length) :
    ofBigEndian l < ofBigEndian l' ↔ l < l' := by
  induction l generalizing l' with
  | nil =>
    have hl' : l' = [] := List.length_eq_zero_iff.mp h.symm
    subst hl'
    simp [ofBigEndian]
  | cons b l ih =>
    cases l' with
    | nil => simp at h
    | cons b' l' =>
      have hlen : l.length = l'.length := by simpa using h
      have hl := ofBigEndian_lt l
      have hl' := ofBigEndian_lt l'
      rw [ofBigEndian_cons, ofBigEndian_cons, List.cons_lt_cons_iff, ← ih hlen, hlen,
        UInt8.lt_iff_toNat_lt, ← UInt8.toNat_inj]
      rw [hlen] at hl
      generalize 256 ^ l'.length = w at hl hl'
      obtain hb | hb | hb := Nat.lt_trichotomy b.toNat b'.toNat
      · have hw : (b.toNat + 1) * w ≤ b'.toNat * w := Nat.mul_le_mul_right w hb
        rw [Nat.add_mul] at hw
        omega
      · rw [hb]
        omega
      · have hw : (b'.toNat + 1) * w ≤ b.toNat * w := Nat.mul_le_mul_right w hb
        rw [Nat.add_mul] at hw
        omega

theorem ofBigEndian_inj {l l' : List UInt8} (h : l.length = l'.length) :
    ofBigEndian l = ofBigEndian l' ↔ l = l' := by
  constructor
  · intro heq
    have hlt : ¬ l < l' := by
      rw [← ofBigEndian_lt_iff h]
      omega
    have hgt : ¬ l' < l := by
      rw [← ofBigEndian_lt_iff h.symm]
      omega
    exact List.le_antisymm hgt hlt
  · intro heq
    rw [heq]

theorem ofBigEndian_eq_zero_iff (l : List UInt8) :
    ofBigEndian l = 0 ↔ l = List.replicate l.length 0 := by
  rw [← ofBigEndian_inj (by simp), ofBigEndian_replicate_zero]

/-! ## Streams and routines -/

inductive Op where
  | encode | decode | free
  deriving DecidableEq, Repr

/-- `bytes` are those written so far or those left to read, and `inline` the answers of
`XDR_INLINE` from here on. -/
structure Stream where
  op : Op
  bytes : List UInt8
  inline : ℕ → Bool

/-- What a routine returns, with the object and the stream as it leaves them. -/
structure Outcome (α : Type*) where
  ok : Bool
  obj : α
  xdrs : Stream

abbrev Proc (α : Type*) := Stream → α → Outcome α

namespace Stream

def putBytes (bytes : List UInt8) (xdrs : Stream) : Stream :=
  { xdrs with bytes := xdrs.bytes ++ bytes }

/-- There is no result when fewer than `n` bytes are left. -/
def getBytes (n : ℕ) (xdrs : Stream) : Option ({ l : List UInt8 // l.length = n } × Stream) :=
  if h : n ≤ xdrs.bytes.length then
    some (⟨xdrs.bytes.take n, List.length_take_of_le h⟩,
      { xdrs with bytes := xdrs.bytes.drop n })
  else none

/-- `XDR_INLINE`: whether it yields a buffer of `n` bytes. -/
def xdrInline (n : ℕ) (xdrs : Stream) : Bool × Stream :=
  (xdrs.inline 0 && (xdrs.op ≠ .decode || n ≤ xdrs.bytes.length),
    { xdrs with inline := fun i => xdrs.inline (i + 1) })

theorem getBytes_append {n : ℕ} {l : List UInt8} (h : l.length = n) (op : Op)
    (rest : List UInt8) (inline : ℕ → Bool) :
    getBytes n ⟨op, l ++ rest, inline⟩ = some (⟨l, h⟩, ⟨op, rest, inline⟩) := by
  subst h
  simp [getBytes]

theorem isSome_getBytes (n : ℕ) (xdrs : Stream) :
    (xdrs.getBytes n).isSome = true ↔ n ≤ xdrs.bytes.length := by
  by_cases hn : n ≤ xdrs.bytes.length
  · simp [getBytes, hn]
  · simp [getBytes, hn]

end Stream

/-- How many bytes fill up `n` bytes to full units. -/
def padding (n : ℕ) : ℕ := (4 - n % 4) % 4

/-- A counted byte string: its length is a `u_int`. -/
abbrev Opaque := { l : List UInt8 // l.length < 2 ^ 32 }

/-- The bytes of a string that `xdr_opaque` writes. -/
def padded (l : List UInt8) : List UInt8 := l ++ List.replicate (padding l.length) 0

/-- `xdr_opaque` of a stream that decodes. -/
def Stream.getPadded (n : ℕ) (xdrs : Stream) :
    Option ({ l : List UInt8 // l.length = n } × Stream) :=
  (xdrs.getBytes n).bind fun r => (r.2.getBytes (padding n)).map fun r' => (r.1, r'.2)

theorem Stream.getPadded_padded {n : ℕ} {l : List UInt8} (h : l.length = n) (op : Op)
    (rest : List UInt8) (inline : ℕ → Bool) :
    getPadded n ⟨op, padded l ++ rest, inline⟩ = some (⟨l, h⟩, ⟨op, rest, inline⟩) := by
  have hpad : (List.replicate (padding l.length) (0 : UInt8)).length = padding n := by
    rw [List.length_replicate, h]
  rw [getPadded, padded, List.append_assoc, getBytes_append h, Option.bind_some,
    getBytes_append hpad, Option.map_some]

theorem Stream.isSome_getPadded (n : ℕ) (xdrs : Stream) :
    (xdrs.getPadded n).isSome = true ↔ n + padding n ≤ xdrs.bytes.length := by
  by_cases hn : n ≤ xdrs.bytes.length
  · have hget : xdrs.getBytes n = some (⟨xdrs.bytes.take n, List.length_take_of_le hn⟩,
        { xdrs with bytes := xdrs.bytes.drop n }) := dif_pos hn
    rw [getPadded, hget, Option.bind_some, Option.isSome_map, isSome_getBytes, List.length_drop]
    omega
  · have hget : xdrs.getBytes n = none := dif_neg hn
    rw [getPadded, hget, Option.bind_none, Option.isSome_none]
    simp only [Bool.false_eq_true, false_iff]
    omega

def Stream.getOpaque (size : UInt32) (xdrs : Stream) : Option (Opaque × Stream) :=
  (xdrs.getPadded size.toNat).map fun r => (⟨r.1.1, r.1.2.trans_lt size.toNat_lt⟩, r.2)

theorem Stream.getOpaque_padded {size : UInt32} {obj : Opaque} (h : size.toNat = obj.1.length)
    (op : Op) (rest : List UInt8) (inline : ℕ → Bool) :
    getOpaque size ⟨op, padded obj.1 ++ rest, inline⟩ = some (obj, ⟨op, rest, inline⟩) := by
  rw [getOpaque, getPadded_padded h.symm, Option.map_some]

theorem Stream.isSome_getOpaque (size : UInt32) (xdrs : Stream) :
    (xdrs.getOpaque size).isSome = true ↔
      size.toNat + padding size.toNat ≤ xdrs.bytes.length := by
  rw [getOpaque, Option.isSome_map, isSome_getPadded]

section Primitives
variable {α β : Type*}

/-- A number that takes `k` bytes. -/
def xdrNumber (k : ℕ) (toNat : α → ℕ) (ofNat : ℕ → α) : Proc α := fun xdrs obj =>
  match xdrs.op with
  | .encode => ⟨true, obj, xdrs.putBytes (bigEndian k (toNat obj))⟩
  | .decode =>
    match xdrs.getBytes k with
    | some (bytes, xdrs) => ⟨true, ofNat (ofBigEndian bytes.1), xdrs⟩
    | none => ⟨false, obj, xdrs⟩
  | .free => ⟨true, obj, xdrs⟩

theorem xdrNumber_decode (k : ℕ) (toNat : α → ℕ) (ofNat : ℕ → α) (bytes : List UInt8)
    (inline : ℕ → Bool) (obj : α) :
    xdrNumber k toNat ofNat ⟨.decode, bytes, inline⟩ obj =
      if k ≤ bytes.length then
        ⟨true, ofNat (ofBigEndian (bytes.take k)), ⟨.decode, bytes.drop k, inline⟩⟩
      else ⟨false, obj, ⟨.decode, bytes, inline⟩⟩ := by
  unfold xdrNumber Stream.getBytes
  by_cases h : k ≤ bytes.length
  · simp [h]
  · simp [h]

/-- A short number takes a whole unit. -/
def xdrUShort : Proc UInt16 := xdrNumber 4 UInt16.toNat UInt16.ofNat

def xdrUInt : Proc UInt32 := xdrNumber 4 UInt32.toNat UInt32.ofNat

def xdrInt : Proc Int32 :=
  xdrNumber 4 (fun i => i.toUInt32.toNat) (fun n => (UInt32.ofNat n).toInt32)

/-- A `char`, which is signed, goes through an `int`. -/
def xdrChar : Proc UInt8 :=
  xdrNumber 4 (fun c => if c.toNat < 128 then c.toNat else c.toNat + (2 ^ 32 - 256)) UInt8.ofNat

def xdrUHyper : Proc UInt64 := xdrNumber 8 UInt64.toNat UInt64.ofNat

/-- `xdr_bytes` without a bound on the length. After a failure the object is left as it
was: what it holds then is not specified. -/
def xdrBytes : Proc Opaque := fun xdrs obj =>
  let size := xdrUInt xdrs (UInt32.ofNat obj.1.length)
  if size.ok then
    match xdrs.op with
    | .encode => ⟨true, obj, size.xdrs.putBytes (padded obj.1)⟩
    | .decode =>
      match size.xdrs.getOpaque size.obj with
      | some (obj, xdrs) => ⟨true, obj, xdrs⟩
      | none => ⟨false, obj, size.xdrs⟩
    | .free => ⟨true, ⟨[], by decide⟩, size.xdrs⟩
  else ⟨false, obj, size.xdrs⟩

/-- One routine after the other, on the same object. -/
def Proc.andThen (p q : Proc α) : Proc α := fun xdrs obj =>
  let r := p xdrs obj
  if r.ok then q r.xdrs r.obj else r

/-- A routine on one field of the object. -/
def Proc.onField (p : Proc β) (get : α → β) (set : α → β → α) : Proc α := fun xdrs obj =>
  let r := p xdrs (get obj)
  ⟨r.ok, set obj r.obj, r.xdrs⟩

/-- The loop of `xdr_vector` over the elements that are left. -/
def xdrElems (p : Proc α) : Proc (List α)
  | xdrs, [] => ⟨true, [], xdrs⟩
  | xdrs, obj :: objs =>
    let r := p xdrs obj
    if r.ok then
      let rs := xdrElems p r.xdrs objs
      ⟨rs.ok, r.obj :: rs.obj, rs.xdrs⟩
    else ⟨false, r.obj :: objs, r.xdrs⟩

@[simp] theorem length_xdrElems (p : Proc α) (xdrs : Stream) (objs : List α) :
    (xdrElems p xdrs objs).obj.length = objs.length := by
  induction objs generalizing xdrs with
  | nil => rfl
  | cons obj objs ih =>
    unfold xdrElems
    dsimp only
    split_ifs
    · rw [List.length_cons, ih, List.length_cons]
    · rw [List.length_cons, List.length_cons]

def xdrVector (n : ℕ) (p : Proc α) : Proc (Vector α n) := fun xdrs v =>
  let r := xdrElems p xdrs v.toList
  ⟨r.ok, ⟨r.obj.toArray, by simp [r]⟩, r.xdrs⟩

end Primitives

/-! ## The loops of the inline path -/

/-- `IXDR_PUT_U_LONG` of all elements into a buffer. -/
def ixdrPutULongs {n : ℕ} (v : Vector UInt32 n) : List UInt8 :=
  v.toList.flatMap fun genp => bigEndian 4 genp.toNat

/-- `IXDR_GET_U_LONG` for all elements from a buffer. -/
def ixdrGetULongs (n : ℕ) (buf : List UInt8) : Vector UInt32 n :=
  Vector.ofFn fun i => UInt32.ofNat (ofBigEndian ((buf.drop (4 * i)).take 4))

/-! ## What is written can be read back -/

section Codes
variable {α β : Type*}

/-- A stream that encodes gets the bytes `enc obj`; and from a stream that decodes and has
these bytes next, exactly they are taken, and an object `obj₀` becomes `upd obj obj₀`. -/
structure Codes (p : Proc α) (enc : α → List UInt8) (upd : α → α → α) : Prop where
  encode : ∀ obj bytes inline, ∃ inline',
    p ⟨.encode, bytes, inline⟩ obj = ⟨true, obj, ⟨.encode, bytes ++ enc obj, inline'⟩⟩
  decode : ∀ obj obj₀ rest inline, ∃ inline',
    p ⟨.decode, enc obj ++ rest, inline⟩ obj₀ = ⟨true, upd obj obj₀, ⟨.decode, rest, inline'⟩⟩

/-- What is read is the whole object that was written. -/
abbrev Codec (p : Proc α) (enc : α → List UInt8) : Prop := Codes p enc fun obj _ => obj

theorem codec_xdrNumber {k : ℕ} {toNat : α → ℕ} {ofNat : ℕ → α}
    (h : ∀ a, ofNat (toNat a % 256 ^ k) = a) :
    Codec (xdrNumber k toNat ofNat) fun a => bigEndian k (toNat a) := by
  constructor
  · intro obj bytes inline
    exact ⟨inline, rfl⟩
  · intro obj obj₀ rest inline
    refine ⟨inline, ?_⟩
    simp only [xdrNumber, Stream.getBytes_append (length_bigEndian k (toNat obj)),
      ofBigEndian_bigEndian, h]

theorem codec_xdrUShort : Codec xdrUShort fun a => bigEndian 4 a.toNat :=
  codec_xdrNumber fun a => by
    rw [Nat.mod_eq_of_lt (a.toNat_lt.trans (by norm_num)), UInt16.ofNat_toNat]

theorem codec_xdrUInt : Codec xdrUInt fun a => bigEndian 4 a.toNat :=
  codec_xdrNumber fun a => by
    rw [Nat.mod_eq_of_lt (a.toNat_lt.trans_le (by norm_num)), UInt32.ofNat_toNat]

theorem codec_xdrInt : Codec xdrInt fun a => bigEndian 4 a.toUInt32.toNat :=
  codec_xdrNumber fun a => by
    rw [Nat.mod_eq_of_lt (a.toUInt32.toNat_lt.trans_le (by norm_num)), UInt32.ofNat_toNat,
      Int32.toInt32_toUInt32]

theorem codec_xdrChar : ∃ enc, Codec xdrChar enc := by
  refine ⟨_, codec_xdrNumber ?_⟩
  intro c
  have hc := c.toNat_lt
  refine UInt8.toNat_inj.mp ?_
  rw [UInt8.toNat_ofNat']
  split_ifs <;> omega

theorem codec_xdrUHyper : Codec xdrUHyper fun a => bigEndian 8 a.toNat :=
  codec_xdrNumber fun a => by
    rw [Nat.mod_eq_of_lt (a.toNat_lt.trans_le (by norm_num)), UInt64.ofNat_toNat]

theorem codec_xdrBytes : Codec xdrBytes fun obj => bigEndian 4 obj.1.length ++ padded obj.1 := by
  have hlen : ∀ obj : Opaque, (UInt32.ofNat obj.1.length).toNat = obj.1.length :=
    fun obj => UInt32.toNat_ofNat_of_lt obj.2
  constructor
  · intro obj bytes inline
    obtain ⟨inline', h⟩ := codec_xdrUInt.encode (UInt32.ofNat obj.1.length) bytes inline
    refine ⟨inline', ?_⟩
    simp only [xdrBytes, h, if_true, Stream.putBytes, hlen, List.append_assoc]
  · intro obj obj₀ rest inline
    obtain ⟨inline', h⟩ := codec_xdrUInt.decode (UInt32.ofNat obj.1.length)
      (UInt32.ofNat obj₀.1.length) (padded obj.1 ++ rest) inline
    rw [hlen, ← List.append_assoc] at h
    refine ⟨inline', ?_⟩
    simp only [xdrBytes, h, if_true, Stream.getOpaque_padded (hlen obj)]

theorem Codes.andThen {p q : Proc α} {enc enc' : α → List UInt8} {upd upd' : α → α → α}
    (hp : Codes p enc upd) (hq : Codes q enc' upd') :
    Codes (p.andThen q) (fun obj => enc obj ++ enc' obj)
      fun obj obj₀ => upd' obj (upd obj obj₀) := by
  constructor
  · intro obj bytes inline
    obtain ⟨inline', h⟩ := hp.encode obj bytes inline
    obtain ⟨inline'', h'⟩ := hq.encode obj (bytes ++ enc obj) inline'
    exact ⟨inline'', by simp only [Proc.andThen, h, if_true, h', List.append_assoc]⟩
  · intro obj obj₀ rest inline
    obtain ⟨inline', h⟩ := hp.decode obj obj₀ (enc' obj ++ rest) inline
    obtain ⟨inline'', h'⟩ := hq.decode obj (upd obj obj₀) rest inline'
    exact ⟨inline'', by simp only [Proc.andThen, List.append_assoc, h, if_true, h']⟩

theorem Codec.onField {p : Proc β} {enc : β → List UInt8} (hp : Codec p enc) {get : α → β}
    {set : α → β → α} (hset : ∀ obj, set obj (get obj) = obj) :
    Codes (p.onField get set) (fun obj => enc (get obj)) fun obj obj₀ => set obj₀ (get obj) := by
  constructor
  · intro obj bytes inline
    obtain ⟨inline', h⟩ := hp.encode (get obj) bytes inline
    exact ⟨inline', by simp only [Proc.onField, h, hset]⟩
  · intro obj obj₀ rest inline
    obtain ⟨inline', h⟩ := hp.decode (get obj) (get obj₀) rest inline
    exact ⟨inline', by simp only [Proc.onField, h]⟩

lemma Codec.xdrElems_encode {p : Proc α} {enc : α → List UInt8} (hp : Codec p enc)
    (objs : List α) (bytes : List UInt8) (inline : ℕ → Bool) :
    ∃ inline', xdrElems p ⟨.encode, bytes, inline⟩ objs =
      ⟨true, objs, ⟨.encode, bytes ++ objs.flatMap enc, inline'⟩⟩ := by
  induction objs generalizing bytes inline with
  | nil => exact ⟨inline, by simp [xdrElems]⟩
  | cons obj objs ih =>
    obtain ⟨inline', h⟩ := hp.encode obj bytes inline
    obtain ⟨inline'', h'⟩ := ih (bytes ++ enc obj) inline'
    refine ⟨inline'', ?_⟩
    simp only [xdrElems, h, if_true, h', List.flatMap_cons, List.append_assoc]

/-- As many elements are read as the object had before. -/
lemma Codec.xdrElems_decode {p : Proc α} {enc : α → List UInt8} (hp : Codec p enc)
    {objs objs₀ : List α} (hlen : objs₀.length = objs.length) (rest : List UInt8)
    (inline : ℕ → Bool) :
    ∃ inline', xdrElems p ⟨.decode, objs.flatMap enc ++ rest, inline⟩ objs₀ =
      ⟨true, objs, ⟨.decode, rest, inline'⟩⟩ := by
  induction objs generalizing objs₀ inline with
  | nil =>
    obtain rfl : objs₀ = [] := List.eq_nil_of_length_eq_zero hlen
    exact ⟨inline, by simp [xdrElems]⟩
  | cons obj objs ih =>
    obtain ⟨obj₀, objs₀, rfl⟩ := List.exists_cons_of_length_eq_add_one hlen
    obtain ⟨inline', h⟩ := hp.decode obj obj₀ (objs.flatMap enc ++ rest) inline
    obtain ⟨inline'', h'⟩ := ih (Nat.succ.inj hlen) inline'
    refine ⟨inline'', ?_⟩
    simp only [xdrElems, List.flatMap_cons, List.append_assoc, h, if_true, h']

theorem codec_xdrVector {n : ℕ} {p : Proc α} {enc : α → List UInt8} (hp : Codec p enc) :
    Codec (xdrVector n p) fun v => v.toList.flatMap enc := by
  have harray : ∀ v : Vector α n, v.toList.toArray = v.toArray := fun v => by simp [Vector.toList]
  constructor
  · intro v bytes inline
    obtain ⟨inline', h⟩ := hp.xdrElems_encode v.toList bytes inline
    exact ⟨inline', by simp [xdrVector, h, harray]⟩
  · intro v v₀ rest inline
    have hlen : v₀.toList.length = v.toList.length := by simp
    obtain ⟨inline', h⟩ := hp.xdrElems_decode hlen rest inline
    exact ⟨inline', by simp [xdrVector, h, harray]⟩

end Codes

/-! ## Routines that read a fixed number of bytes -/

section FixedSize
variable {α β : Type*}

/-- Whatever the object, `k` bytes are enough, and without a failure `k` bytes are taken. -/
structure FixedSize (p : Proc α) (k : ℕ) : Prop where
  ok : ∀ bytes inline obj, (p ⟨.decode, bytes, inline⟩ obj).ok = true ↔ k ≤ bytes.length
  taken : ∀ bytes inline obj, k ≤ bytes.length →
    ∃ inline', (p ⟨.decode, bytes, inline⟩ obj).xdrs = ⟨.decode, bytes.drop k, inline'⟩

theorem fixedSize_xdrNumber (k : ℕ) (toNat : α → ℕ) (ofNat : ℕ → α) :
    FixedSize (xdrNumber k toNat ofNat) k := by
  constructor
  · intro bytes inline obj
    rw [xdrNumber_decode]
    split_ifs with hk
    · simp [hk]
    · simp [hk]
  · intro bytes inline obj hk
    rw [xdrNumber_decode, if_pos hk]
    exact ⟨inline, rfl⟩

theorem FixedSize.onField {p : Proc β} {k : ℕ} (hp : FixedSize p k) (get : α → β)
    (set : α → β → α) : FixedSize (p.onField get set) k := by
  constructor
  · intro bytes inline obj
    exact hp.ok bytes inline (get obj)
  · intro bytes inline obj hk
    exact hp.taken bytes inline (get obj) hk

theorem FixedSize.andThen {p q : Proc α} {k k' : ℕ} (hp : FixedSize p k) (hq : FixedSize q k') :
    FixedSize (p.andThen q) (k + k') := by
  constructor
  · intro bytes inline obj
    unfold Proc.andThen
    by_cases hk : k ≤ bytes.length
    · obtain ⟨inline', hxdrs⟩ := hp.taken bytes inline obj hk
      have hok := (hp.ok bytes inline obj).mpr hk
      simp only [hok, if_true, hxdrs]
      rw [hq.ok, List.length_drop]
      omega
    · have hok := mt (hp.ok bytes inline obj).mp hk
      simp only [hok, Bool.false_eq_true, if_false, false_iff]
      omega
  · intro bytes inline obj hk
    unfold Proc.andThen
    obtain ⟨inline', hxdrs⟩ := hp.taken bytes inline obj (by omega)
    have hok := (hp.ok bytes inline obj).mpr (by omega)
    have hrest : k' ≤ (bytes.drop k).length := by
      rw [List.length_drop]
      omega
    obtain ⟨inline'', hxdrs'⟩ := hq.taken (bytes.drop k) inline'
      (p ⟨.decode, bytes, inline⟩ obj).obj hrest
    refine ⟨inline'', ?_⟩
    simp only [hok, if_true, hxdrs, hxdrs', List.drop_drop]

theorem FixedSize.xdrElems {p : Proc α} {k : ℕ} (hp : FixedSize p k) (objs : List α)
    (bytes : List UInt8) (inline : ℕ → Bool) :
    ((xdrElems p ⟨.decode, bytes, inline⟩ objs).ok = true ↔ objs.length * k ≤ bytes.length) ∧
      (objs.length * k ≤ bytes.length → ∃ inline', (xdrElems p ⟨.decode, bytes, inline⟩ objs).xdrs =
        ⟨.decode, bytes.drop (objs.length * k), inline'⟩) := by
  induction objs generalizing bytes inline with
  | nil => exact ⟨by simp [Xdr.xdrElems], fun _ => ⟨inline, by simp [Xdr.xdrElems]⟩⟩
  | cons obj objs ih =>
    have hlen : (obj :: objs).length * k = k + objs.length * k := by
      rw [List.length_cons, Nat.add_mul, Nat.one_mul, Nat.add_comm]
    rw [hlen]
    unfold Xdr.xdrElems
    by_cases hk : k ≤ bytes.length
    · obtain ⟨inline', hxdrs⟩ := hp.taken bytes inline obj hk
      have hok := (hp.ok bytes inline obj).mpr hk
      have hrest := ih (bytes.drop k) inline'
      rw [List.length_drop] at hrest
      simp only [hok, if_true, hxdrs]
      refine ⟨?_, ?_⟩
      · rw [hrest.1]
        omega
      · intro hle
        obtain ⟨inline'', hxdrs'⟩ := hrest.2 (by omega)
        exact ⟨inline'', by rw [hxdrs', List.drop_drop]⟩
    · have hok := mt (hp.ok bytes inline obj).mp hk
      simp only [hok, Bool.false_eq_true, if_false, false_iff]
      exact ⟨by omega, fun hle => by omega⟩

theorem FixedSize.xdrVector {p : Proc α} {k : ℕ} (hp : FixedSize p k) (n : ℕ) :
    FixedSize (xdrVector n p) (n * k) := by
  constructor
  · intro bytes inline v
    have helems := (hp.xdrElems v.toList bytes inline).1
    rwa [Vector.length_toList] at helems
  · intro bytes inline v hle
    have helems := (hp.xdrElems v.toList bytes inline).2
    rw [Vector.length_toList] at helems
    exact helems hle

end FixedSize

/-! ## Routines that read as many bytes as the bytes say -/

section Reads
variable {α β : Type*}

/-- Whatever the object, what is there is enough if it is as long as `need` says of it, and
without a failure that many bytes are taken. -/
structure Reads (p : Proc α) (need : List UInt8 → ℕ) : Prop where
  ok : ∀ bytes inline obj, (p ⟨.decode, bytes, inline⟩ obj).ok = true ↔ need bytes ≤ bytes.length
  taken : ∀ bytes inline obj, need bytes ≤ bytes.length →
    ∃ inline', (p ⟨.decode, bytes, inline⟩ obj).xdrs = ⟨.decode, bytes.drop (need bytes), inline'⟩

theorem FixedSize.reads {p : Proc α} {k : ℕ} (hp : FixedSize p k) : Reads p fun _ => k :=
  ⟨hp.ok, hp.taken⟩

theorem Reads.onField {p : Proc β} {need : List UInt8 → ℕ} (hp : Reads p need) (get : α → β)
    (set : α → β → α) : Reads (p.onField get set) need := by
  constructor
  · intro bytes inline obj
    exact hp.ok bytes inline (get obj)
  · intro bytes inline obj hneed
    exact hp.taken bytes inline (get obj) hneed

theorem Reads.andThen {p q : Proc α} {need need' : List UInt8 → ℕ} (hp : Reads p need)
    (hq : Reads q need') :
    Reads (p.andThen q) fun bytes => need bytes + need' (bytes.drop (need bytes)) := by
  constructor
  · intro bytes inline obj
    unfold Proc.andThen
    by_cases hneed : need bytes ≤ bytes.length
    · obtain ⟨inline', hxdrs⟩ := hp.taken bytes inline obj hneed
      have hok := (hp.ok bytes inline obj).mpr hneed
      simp only [hok, if_true, hxdrs]
      rw [hq.ok, List.length_drop]
      omega
    · have hok := mt (hp.ok bytes inline obj).mp hneed
      simp only [hok, Bool.false_eq_true, if_false, false_iff]
      omega
  · intro bytes inline obj hneed
    unfold Proc.andThen
    obtain ⟨inline', hxdrs⟩ := hp.taken bytes inline obj (by omega)
    have hok := (hp.ok bytes inline obj).mpr (by omega)
    have hrest : need' (bytes.drop (need bytes)) ≤ (bytes.drop (need bytes)).length := by
      rw [List.length_drop]
      omega
    obtain ⟨inline'', hxdrs'⟩ := hq.taken (bytes.drop (need bytes)) inline'
      (p ⟨.decode, bytes, inline⟩ obj).obj hrest
    refine ⟨inline'', ?_⟩
    simp only [hok, if_true, hxdrs, hxdrs', List.drop_drop]

/-- The length of a byte string and the string, filled up to full units. -/
def opaqueNeed (bytes : List UInt8) : ℕ :=
  4 + (ofBigEndian (bytes.take 4) + padding (ofBigEndian (bytes.take 4)))

theorem Stream.getOpaque_eq_some (op : Op) {bytes : List UInt8} (inline : ℕ → Bool) {size : UInt32}
    (h : size.toNat + padding size.toNat ≤ bytes.length) :
    getOpaque size ⟨op, bytes, inline⟩ =
      some (⟨bytes.take size.toNat, (List.length_take_le _ _).trans_lt size.toNat_lt⟩,
        ⟨op, bytes.drop (size.toNat + padding size.toNat), inline⟩) := by
  have hlen : size.toNat ≤ bytes.length := by omega
  have hget : getBytes size.toNat ⟨op, bytes, inline⟩ =
      some (⟨bytes.take size.toNat, List.length_take_of_le hlen⟩,
        ⟨op, bytes.drop size.toNat, inline⟩) := dif_pos hlen
  have hpad : padding size.toNat ≤ (bytes.drop size.toNat).length := by
    rw [List.length_drop]
    omega
  rw [getOpaque, getPadded, hget, Option.bind_some, getBytes, dif_pos hpad, Option.map_some,
    Option.map_some, List.drop_drop]

theorem reads_xdrBytes : Reads xdrBytes opaqueNeed := by
  have hsize : ∀ bytes : List UInt8, 4 ≤ bytes.length →
      (UInt32.ofNat (ofBigEndian (bytes.take 4))).toNat = ofBigEndian (bytes.take 4) := by
    intro bytes h4
    have hlt := ofBigEndian_lt (bytes.take 4)
    rw [List.length_take_of_le h4] at hlt
    exact UInt32.toNat_ofNat_of_lt hlt
  constructor
  · intro bytes inline obj
    unfold opaqueNeed
    by_cases h4 : 4 ≤ bytes.length
    · have hsome := Stream.isSome_getOpaque (UInt32.ofNat (ofBigEndian (bytes.take 4)))
        ⟨.decode, bytes.drop 4, inline⟩
      rw [hsize bytes h4, List.length_drop] at hsome
      simp only [xdrBytes, xdrUInt, xdrNumber_decode, if_pos h4, if_true]
      cases hget : Stream.getOpaque (UInt32.ofNat (ofBigEndian (bytes.take 4)))
          ⟨.decode, bytes.drop 4, inline⟩ with
      | none =>
        rw [hget] at hsome
        simp only [Option.isSome_none, Bool.false_eq_true, false_iff] at hsome ⊢
        omega
      | some r =>
        rw [hget] at hsome
        simp only [Option.isSome_some, true_iff] at hsome ⊢
        omega
    · simp only [xdrBytes, xdrUInt, xdrNumber_decode, if_neg h4, Bool.false_eq_true, if_false,
        false_iff]
      omega
  · intro bytes inline obj hneed
    unfold opaqueNeed at hneed ⊢
    have h4 : 4 ≤ bytes.length := by omega
    have hrest : ofBigEndian (bytes.take 4) + padding (ofBigEndian (bytes.take 4)) ≤
        (bytes.drop 4).length := by
      rw [List.length_drop]
      omega
    rw [← hsize bytes h4] at hrest
    have hread := Stream.getOpaque_eq_some .decode inline hrest
    refine ⟨inline, ?_⟩
    simp only [xdrBytes, xdrUInt, xdrNumber_decode, if_pos h4, if_true, hread, hsize bytes h4,
      List.drop_drop]

end Reads

/-! ## Routines that do not depend on the buffer -/

section InlineFree
variable {α β : Type*}

/-- Two streams that differ in nothing but the answers of `XDR_INLINE`. -/
structure Stream.Same (xdrs xdrs' : Stream) : Prop where
  op : xdrs'.op = xdrs.op
  bytes : xdrs'.bytes = xdrs.bytes

theorem Stream.Same.eq {op : Op} {bytes : List UInt8} {inline : ℕ → Bool} {xdrs : Stream}
    (h : Stream.Same ⟨op, bytes, inline⟩ xdrs) : xdrs = ⟨op, bytes, xdrs.inline⟩ := by
  obtain ⟨rfl, rfl⟩ := h
  rfl

structure Outcome.Same (r r' : Outcome α) : Prop where
  ok : r'.ok = r.ok
  obj : r'.obj = r.obj
  xdrs : r.xdrs.Same r'.xdrs

theorem Outcome.Same.symm {r r' : Outcome α} (h : r.Same r') : r'.Same r :=
  ⟨h.ok.symm, h.obj.symm, h.xdrs.op.symm, h.xdrs.bytes.symm⟩

theorem Outcome.Same.trans {r r' r'' : Outcome α} (h : r.Same r') (h' : r'.Same r'') :
    r.Same r'' :=
  ⟨h'.ok.trans h.ok, h'.obj.trans h.obj, h'.xdrs.op.trans h.xdrs.op,
    h'.xdrs.bytes.trans h.xdrs.bytes⟩

/-- Whatever the operation, the object and the bytes, the answers of `XDR_INLINE` make no
difference. -/
def InlineFree (p : Proc α) : Prop :=
  ∀ xdrs xdrs' obj, xdrs.Same xdrs' → (p xdrs obj).Same (p xdrs' obj)

theorem inlineFree_xdrNumber (k : ℕ) (toNat : α → ℕ) (ofNat : ℕ → α) :
    InlineFree (xdrNumber k toNat ofNat) := by
  rintro ⟨_, _, inline⟩ ⟨op, bytes, inline'⟩ obj ⟨rfl, rfl⟩
  cases op with
  | encode => exact ⟨rfl, rfl, rfl, rfl⟩
  | decode =>
    rw [xdrNumber_decode, xdrNumber_decode]
    split_ifs with hk
    · exact ⟨rfl, rfl, rfl, rfl⟩
    · exact ⟨rfl, rfl, rfl, rfl⟩
  | free => exact ⟨rfl, rfl, rfl, rfl⟩

theorem Stream.Same.getOpaque {xdrs xdrs' : Stream} (h : xdrs.Same xdrs') (size : UInt32) :
    (xdrs.getOpaque size = none ∧ xdrs'.getOpaque size = none) ∨
      ∃ obj rest rest', xdrs.getOpaque size = some (obj, rest) ∧
        xdrs'.getOpaque size = some (obj, rest') ∧ rest.Same rest' := by
  obtain ⟨_, _, inline⟩ := xdrs
  obtain ⟨op, bytes, inline'⟩ := xdrs'
  obtain ⟨rfl, rfl⟩ := h
  by_cases hsize : size.toNat + padding size.toNat ≤ bytes.length
  · exact .inr ⟨_, _, _, Stream.getOpaque_eq_some op inline hsize,
      Stream.getOpaque_eq_some op inline' hsize, rfl, rfl⟩
  · have hnone : ∀ inline, Stream.getOpaque size ⟨op, bytes, inline⟩ = none := by
      intro inline
      rw [← Option.not_isSome_iff_eq_none, Stream.isSome_getOpaque]
      exact hsize
    exact .inl ⟨hnone inline, hnone inline'⟩

theorem inlineFree_xdrBytes : InlineFree xdrBytes := by
  intro xdrs xdrs' obj h
  have hsize : (xdrUInt xdrs (UInt32.ofNat obj.1.length)).Same
      (xdrUInt xdrs' (UInt32.ofNat obj.1.length)) := inlineFree_xdrNumber 4 _ _ xdrs xdrs' _ h
  by_cases hok : (xdrUInt xdrs (UInt32.ofNat obj.1.length)).ok = true
  · cases hop : xdrs.op with
    | encode =>
      simp only [xdrBytes, hsize.ok, h.op, hok, hop, if_true]
      exact ⟨rfl, rfl, hsize.xdrs.op, by simp [Stream.putBytes, hsize.xdrs.bytes]⟩
    | decode =>
      simp only [xdrBytes, hsize.ok, hsize.obj, h.op, hok, hop, if_true]
      rcases hsize.xdrs.getOpaque (xdrUInt xdrs (UInt32.ofNat obj.1.length)).obj with
        ⟨hnone, hnone'⟩ | ⟨read, rest, rest', hsome, hsome', hrest⟩
      · simp only [hnone, hnone']
        exact ⟨rfl, rfl, hsize.xdrs⟩
      · simp only [hsome, hsome']
        exact ⟨rfl, rfl, hrest⟩
    | free =>
      simp only [xdrBytes, hsize.ok, h.op, hok, hop, if_true]
      exact ⟨rfl, rfl, hsize.xdrs⟩
  · simp only [xdrBytes, hsize.ok, hok, Bool.false_eq_true, if_false]
    exact ⟨rfl, rfl, hsize.xdrs⟩

theorem InlineFree.onField {p : Proc β} (hp : InlineFree p) (get : α → β) (set : α → β → α) :
    InlineFree (p.onField get set) := by
  intro xdrs xdrs' obj h
  have hr := hp xdrs xdrs' (get obj) h
  exact ⟨hr.ok, congrArg (set obj) hr.obj, hr.xdrs⟩

theorem InlineFree.andThen {p q : Proc α} (hp : InlineFree p) (hq : InlineFree q) :
    InlineFree (p.andThen q) := by
  intro xdrs xdrs' obj h
  have hr := hp xdrs xdrs' obj h
  unfold Proc.andThen
  simp only [hr.ok, hr.obj]
  split_ifs with hok
  · exact hq _ _ _ hr.xdrs
  · exact hr

theorem InlineFree.xdrElems {p : Proc α} (hp : InlineFree p) (objs : List α) {xdrs xdrs' : Stream}
    (h : xdrs.Same xdrs') : (xdrElems p xdrs objs).Same (xdrElems p xdrs' objs) := by
  induction objs generalizing xdrs xdrs' with
  | nil => exact ⟨rfl, rfl, h⟩
  | cons obj objs ih =>
    have hr := hp xdrs xdrs' obj h
    unfold Xdr.xdrElems
    simp only [hr.ok, hr.obj]
    split_ifs with hok
    · have hrs := ih hr.xdrs
      exact ⟨hrs.ok, congrArg ((p xdrs obj).obj :: ·) hrs.obj, hrs.xdrs⟩
    · exact ⟨rfl, rfl, hr.xdrs⟩

theorem InlineFree.xdrVector {p : Proc α} (hp : InlineFree p) (n : ℕ) :
    InlineFree (xdrVector n p) := by
  intro xdrs xdrs' v h
  have hr := hp.xdrElems v.toList h
  refine ⟨hr.ok, ?_, hr.xdrs⟩
  apply Vector.toArray_inj.mp
  exact congrArg List.toArray hr.obj

end InlineFree

/-! ## Messages -/

section Messages
variable {α : Type*}

/-- The bytes of a message that consists of one object. -/
def Proc.bytes (p : Proc α) (obj : α) : List UInt8 :=
  (p ⟨.encode, [], fun _ => false⟩ obj).xdrs.bytes

/-- The object that is read from a message into one that is set to zero. -/
def Proc.parse (p : Proc α) (zero : α) (bytes : List UInt8) : Option α :=
  let r := p ⟨.decode, bytes, fun _ => false⟩ zero
  if r.ok then some r.obj else none

theorem Codec.decode_bytes {p : Proc α} {enc : α → List UInt8} (h : Codec p enc) (zero obj : α) :
    let r := p ⟨.decode, p.bytes obj, fun _ => false⟩ zero
    r.ok = true ∧ r.obj = obj := by
  intro r
  obtain ⟨inline, hbytes⟩ := h.encode obj [] fun _ => false
  obtain ⟨inline', hobj⟩ := h.decode obj zero [] fun _ => false
  have henc : p.bytes obj = enc obj ++ [] := by
    rw [Proc.bytes, hbytes, List.nil_append, List.append_nil]
  simp only [r, henc, hobj, and_self]

theorem Codec.parse_bytes {p : Proc α} {enc : α → List UInt8} (h : Codec p enc) (zero obj : α) :
    p.parse zero (p.bytes obj) = some obj := by
  obtain ⟨hok, hobj⟩ := h.decode_bytes zero obj
  rw [Proc.parse, if_pos hok, hobj]

theorem FixedSize.isSome_parse {p : Proc α} {k : ℕ} (h : FixedSize p k) (zero : α)
    (bytes : List UInt8) : (p.parse zero bytes).isSome = true ↔ k ≤ bytes.length := by
  rw [← h.ok bytes (fun _ => false) zero, Proc.parse]
  split_ifs with hok
  · simp [hok]
  · simp [hok]

end Messages

/-! ## The loops of the inline path read back what they write -/

/-- The four bytes of an element lie at its place in the buffer. -/
lemma take_drop_flatMap_bigEndian (objs : List UInt32) (rest : List UInt8) (i : ℕ)
    (hi : i < objs.length) :
    (((objs.flatMap fun obj => bigEndian 4 obj.toNat) ++ rest).drop (4 * i)).take 4 =
      bigEndian 4 objs[i].toNat := by
  induction objs generalizing i with
  | nil => simp at hi
  | cons obj objs ih =>
    rw [List.flatMap_cons, List.append_assoc]
    cases i with
    | zero => exact List.take_left' (length_bigEndian 4 _)
    | succ i =>
      have hdrop : 4 * (i + 1) = (bigEndian 4 obj.toNat).length + 4 * i := by
        rw [length_bigEndian]
        ring
      rw [hdrop, List.drop_length_add_append]
      exact ih i (Nat.lt_of_succ_lt_succ hi)

theorem ixdrGetULongs_ixdrPutULongs {n : ℕ} (v : Vector UInt32 n) (rest : List UInt8) :
    ixdrGetULongs n (ixdrPutULongs v ++ rest) = v := by
  ext i hi
  have hbytes := take_drop_flatMap_bigEndian v.toList rest i (by simpa using hi)
  simp only [ixdrGetULongs, ixdrPutULongs, Vector.getElem_ofFn, hbytes, ofBigEndian_bigEndian]
  rw [Nat.mod_eq_of_lt ((UInt32.toNat_lt _).trans_le (by norm_num))]
  simp

lemma xdrElems_xdrUInt_decode (objs : List UInt32) {bytes : List UInt8} (inline : ℕ → Bool)
    (h : 4 * objs.length ≤ bytes.length) :
    xdrElems xdrUInt ⟨.decode, bytes, inline⟩ objs =
      ⟨true, (List.range objs.length).map fun i =>
          UInt32.ofNat (ofBigEndian ((bytes.drop (4 * i)).take 4)),
        ⟨.decode, bytes.drop (4 * objs.length), inline⟩⟩ := by
  induction objs generalizing bytes with
  | nil => rfl
  | cons obj objs ih =>
    rw [List.length_cons, Nat.mul_succ] at h
    have h4 : 4 ≤ bytes.length := by omega
    have hrest : 4 * objs.length ≤ (bytes.drop 4).length := by
      rw [List.length_drop]
      omega
    have hnumber : xdrUInt ⟨.decode, bytes, inline⟩ obj =
        ⟨true, UInt32.ofNat (ofBigEndian (bytes.take 4)), ⟨.decode, bytes.drop 4, inline⟩⟩ := by
      rw [xdrUInt, xdrNumber_decode, if_pos h4]
    rw [xdrElems, hnumber]
    simp only [if_true, ih hrest, List.length_cons, List.range_succ_eq_map, List.map_cons,
      List.map_map, List.drop_drop, Nat.mul_zero, List.drop_zero]
    congr 2
    · apply List.map_congr_left
      intro i _
      rw [Function.comp_apply, Nat.mul_succ, Nat.add_comm 4]
    · rw [Nat.mul_succ, Nat.add_comm 4]

/-- Without a buffer the same elements are read from the same bytes. -/
theorem xdrVector_xdrUInt_decode {n : ℕ} (v : Vector UInt32 n) {bytes : List UInt8}
    (inline : ℕ → Bool) (h : 4 * n ≤ bytes.length) :
    xdrVector n xdrUInt ⟨.decode, bytes, inline⟩ v =
      ⟨true, ixdrGetULongs n (bytes.take (4 * n)), ⟨.decode, bytes.drop (4 * n), inline⟩⟩ := by
  have hlen : 4 * v.toList.length ≤ bytes.length := by
    rw [Vector.length_toList]
    exact h
  unfold xdrVector
  simp only [xdrElems_xdrUInt_decode v.toList inline hlen, Vector.length_toList]
  congr 1
  ext i hi
  have hi4 : min 4 (4 * n - 4 * i) = 4 := by omega
  simp [ixdrGetULongs, List.drop_take, List.take_take, hi4]

theorem length_ixdrPutULongs {n : ℕ} (v : Vector UInt32 n) :
    (ixdrPutULongs v).length = 4 * n := by
  simp [ixdrPutULongs, List.length_flatMap, mul_comm]

end DistributedSystem.Xdr
