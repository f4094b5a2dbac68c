import Mathlib.Data.Nat.Digits.Lemmas

/-!
# Values in memory

A `Layout` says how the values of a type lie in a stretch of memory: how large it is, what alignment
it asks for, which values fit into it, and how one is stored and loaded.  Storing a value need not
overwrite all of the stretch (there is padding, and what follows the end of a string), so it is a
function of what was there before.

## What is here

* `Layout` has its laws as fields, so that a layout put together out of smaller ones comes with
  them: what is stored is loaded, whatever was there before; what is loaded fits; and storing it
  again changes nothing.
* `word` is a number of some bytes, the least significant one first, and `reverse` the same in the
  other order; `chars` is an array of characters with a terminated string in it, and `buffer` one of
  bytes of which the first are filled; `gap` is memory that nobody looks at.
* `map`, `equiv`, `ranged` and `enum` make a layout for another type of values.
* `seq` places one member behind another at the next aligned offset, the layout of the second
  possibly depending on the value of the first; `pair` is the case in which it does not, and `close`
  adds the padding at the end.

The structures of the messages are built from these in `Images.lean`.
-/

set_option autoImplicit false

/-- How values lie in memory. -/
structure Layout (α : Type) where
  /-- The number of bytes. -/
  size : Nat
  /-- The alignment. -/
  align : Nat
  /-- The values that fit. -/
  Fits : α → Prop
  /-- The memory after a value has been stored. -/
  store : α → List UInt8 → List UInt8
  /-- What is found there. -/
  load : List UInt8 → Option α
  /-- The memory stays as large as it was. -/
  length_store {a : α} {mem : List UInt8} (ha : Fits a) (hmem : mem.length = size) :
    (store a mem).length = size
  /-- What is stored is loaded. -/
  load_store {a : α} {mem : List UInt8} (ha : Fits a) (hmem : mem.length = size) :
    load (store a mem) = some a
  /-- What is loaded fits. -/
  fits_of_load {a : α} {mem : List UInt8} (hmem : mem.length = size) (h : load mem = some a) :
    Fits a
  /-- A value that has been loaded need not be stored again. -/
  store_load {a : α} {mem : List UInt8} (hmem : mem.length = size) (h : load mem = some a) :
    store a mem = mem

namespace Layout

variable {α β : Type}

/-! ## Numbers

Numbers as bytes, in either order. -/

section Words

/-- The bytes of a number, the least significant one first. -/
def bytesOf (n a : Nat) : List UInt8 := (Nat.digitsAppend 256 n a).map UInt8.ofNat

/-- The number with these bytes. -/
def ofBytes (mem : List UInt8) : Nat := Nat.ofDigits 256 (mem.map UInt8.toNat)

theorem length_bytesOf {n a : Nat} (ha : a < 256 ^ n) : (bytesOf n a).length = n := by
  rw [bytesOf, List.length_map, Nat.length_digitsAppend (by decide) n ha]

theorem lt_of_mem_map_toNat {mem : List UInt8} {x : Nat} (hx : x ∈ mem.map UInt8.toNat) :
    x < 256 := by
  obtain ⟨b, -, rfl⟩ := List.mem_map.mp hx
  exact b.toNat_lt

theorem ofBytes_lt (mem : List UInt8) : ofBytes mem < 256 ^ mem.length := by
  have h := Nat.ofDigits_lt_base_pow_length (b := 256) (by decide)
    fun x ↦ @lt_of_mem_map_toNat mem x
  rwa [List.length_map] at h

theorem ofBytes_bytesOf {n a : Nat} (ha : a < 256 ^ n) : ofBytes (bytesOf n a) = a := by
  have hdigits : ((Nat.digitsAppend 256 n a).map UInt8.ofNat).map UInt8.toNat
      = Nat.digitsAppend 256 n a := by
    rw [List.map_map]
    refine (List.map_congr_left fun x hx ↦ ?_).trans (List.map_id _)
    exact UInt8.toNat_ofNat_of_lt (Nat.lt_of_mem_digitsAppend (by decide) n x hx)
  rw [ofBytes, bytesOf, hdigits]
  exact (Nat.setInvOn_digitsAppend_ofDigits (by decide) n).2 ha

theorem bytesOf_ofBytes (mem : List UInt8) : bytesOf mem.length (ofBytes mem) = mem := by
  have h := (Nat.setInvOn_digitsAppend_ofDigits (b := 256) (by decide) mem.length).1
    (x := mem.map UInt8.toNat) ⟨List.length_map .., fun _ ↦ lt_of_mem_map_toNat⟩
  rw [bytesOf, ofBytes, h, List.map_map]
  exact (List.map_congr_left fun b _ ↦ UInt8.ofNat_toNat).trans (List.map_id mem)

/-- A number of `n` bytes. -/
def word (n : Nat) : Layout Nat where
  size := n
  align := n
  Fits a := a < 256 ^ n
  store a _ := bytesOf n a
  load mem := some (ofBytes mem)
  length_store ha _ := length_bytesOf ha
  load_store ha _ := congrArg some (ofBytes_bytesOf ha)
  fits_of_load hmem h := by
    rw [← Option.some_inj.mp h, ← hmem]
    exact ofBytes_lt _
  store_load hmem h := by
    rw [← Option.some_inj.mp h, ← hmem]
    exact bytesOf_ofBytes _

/-- With the bytes in the other order. -/
def reverse (l : Layout α) : Layout α where
  size := l.size
  align := l.align
  Fits := l.Fits
  store a mem := (l.store a mem.reverse).reverse
  load mem := l.load mem.reverse
  length_store ha hmem := by
    rw [List.length_reverse]
    exact l.length_store ha (List.length_reverse.trans hmem)
  load_store ha hmem := by
    rw [List.reverse_reverse]
    exact l.load_store ha (List.length_reverse.trans hmem)
  fits_of_load hmem h := l.fits_of_load (List.length_reverse.trans hmem) h
  store_load hmem h := by
    rw [l.store_load (List.length_reverse.trans hmem) h, List.reverse_reverse]

end Words

/-! ## Arrays

Strings with their terminator, and buffers that are filled from the front. -/

section Arrays

theorem takeWhile_terminated {s : List UInt8} (hs : 0 ∉ s) (rest : List UInt8) :
    (s ++ 0 :: rest).takeWhile (· ≠ 0) = s := by
  rw [List.takeWhile_append_of_pos, List.takeWhile_cons_of_neg (by decide), List.append_nil]
  intro b hb
  simpa using fun h0 : b = 0 ↦ hs (h0 ▸ hb)

/-- An array of `n` characters that holds a string with its terminator. -/
def chars (n : Nat) : Layout (List UInt8) where
  size := n
  align := 1
  Fits s := s.length < n ∧ 0 ∉ s
  store s mem := s ++ 0 :: mem.drop (s.length + 1)
  load mem := if 0 ∈ mem then some (mem.takeWhile (· ≠ 0)) else none
  length_store ha hmem := by
    rw [List.length_append, List.length_cons, List.length_drop, hmem]
    omega
  load_store ha _ := by
    rw [if_pos (List.mem_append_right _ List.mem_cons_self), takeWhile_terminated ha.2]
  fits_of_load hmem h := by
    obtain ⟨hzero, h⟩ := Option.ite_none_right_eq_some.mp h
    obtain ⟨s, rest, rfl, hs⟩ := List.eq_append_cons_of_mem hzero
    rw [takeWhile_terminated hs, Option.some_inj] at h
    subst h
    rw [List.length_append, List.length_cons] at hmem
    exact ⟨by omega, hs⟩
  store_load hmem h := by
    obtain ⟨hzero, h⟩ := Option.ite_none_right_eq_some.mp h
    obtain ⟨s, rest, rfl, hs⟩ := List.eq_append_cons_of_mem hzero
    rw [takeWhile_terminated hs, Option.some_inj] at h
    subst h
    have hdrop : (s ++ 0 :: rest).drop (s.length + 1) = rest := by
      rw [List.append_cons, List.drop_left' (by simp)]
    rw [hdrop]

/-- An array of `n` bytes of which the first `k` are filled. -/
def buffer (n k : Nat) : Layout (List UInt8) where
  size := n
  align := 1
  Fits bytes := k ≤ n ∧ bytes.length = k
  store bytes mem := bytes ++ mem.drop k
  load mem := if k ≤ n then some (mem.take k) else none
  length_store ha hmem := by
    rw [List.length_append, List.length_drop, hmem, ha.2]
    omega
  load_store ha _ := by
    rw [if_pos ha.1, List.take_left' ha.2]
  fits_of_load hmem h := by
    obtain ⟨hk, h⟩ := Option.ite_none_right_eq_some.mp h
    rw [← Option.some_inj.mp h, List.length_take, hmem]
    exact ⟨hk, Nat.min_eq_left hk⟩
  store_load _ h := by
    obtain ⟨-, h⟩ := Option.ite_none_right_eq_some.mp h
    rw [← Option.some_inj.mp h, List.take_append_drop]

/-- Memory that nobody looks at. -/
def gap (n align : Nat) : Layout Unit where
  size := n
  align := align
  Fits _ := True
  store _ mem := mem
  load _ := some ()
  length_store _ hmem := hmem
  load_store _ _ := rfl
  fits_of_load _ _ := trivial
  store_load _ _ := rfl

end Arrays

/-! ## Values of other types

A layout for values that are represented by others. -/

section Values

/-- The values of `β` are represented by values of `α`. -/
def map (l : Layout α) (Ok : β → Prop) (parse : α → Option β) (render : β → α)
    (hrender : ∀ b, Ok b → parse (render b) = some b)
    (hparse : ∀ a b, parse a = some b → Ok b ∧ render b = a) : Layout β where
  size := l.size
  align := l.align
  Fits b := Ok b ∧ l.Fits (render b)
  store b := l.store (render b)
  load mem := (l.load mem).bind parse
  length_store hb hmem := l.length_store hb.2 hmem
  load_store hb hmem := by
    rw [l.load_store hb.2 hmem, Option.bind_some, hrender _ hb.1]
  fits_of_load hmem h := by
    obtain ⟨a, ha, hb⟩ := Option.bind_eq_some_iff.mp h
    obtain ⟨hok, rfl⟩ := hparse _ _ hb
    exact ⟨hok, l.fits_of_load hmem ha⟩
  store_load hmem h := by
    obtain ⟨a, ha, hb⟩ := Option.bind_eq_some_iff.mp h
    obtain ⟨-, rfl⟩ := hparse _ _ hb
    exact l.store_load hmem ha

/-- The values of `β` are represented by all values of `α`. -/
def equiv (l : Layout α) (e : α ≃ β) : Layout β where
  size := l.size
  align := l.align
  Fits b := l.Fits (e.symm b)
  store b := l.store (e.symm b)
  load mem := (l.load mem).map e
  length_store hb hmem := l.length_store hb hmem
  load_store hb hmem := by
    rw [l.load_store hb hmem, Option.map_some, e.apply_symm_apply]
  fits_of_load hmem h := by
    obtain ⟨a, ha, rfl⟩ := Option.map_eq_some_iff.mp h
    rw [e.symm_apply_apply]
    exact l.fits_of_load hmem ha
  store_load hmem h := by
    obtain ⟨a, ha, rfl⟩ := Option.map_eq_some_iff.mp h
    rw [e.symm_apply_apply]
    exact l.store_load hmem ha

/-- The values of a type are represented by the numbers below a bound. -/
def ranged (l : Layout Nat) (bound : Nat) (of : Nat → β) (toNat : β → Nat)
    (hlt : ∀ b, toNat b < bound) (hof : ∀ b, of (toNat b) = b)
    (hnat : ∀ n, n < bound → toNat (of n) = n) : Layout β :=
  l.map (fun _ ↦ True) (fun n ↦ if n < bound then some (of n) else none) toNat
    (fun b _ ↦ by rw [if_pos (hlt b), hof]) (fun n b h ↦ by
      obtain ⟨hn, h⟩ := Option.ite_none_right_eq_some.mp h
      rw [← Option.some_inj.mp h]
      exact ⟨trivial, hnat n hn⟩)

theorem find?_value {table : List α} {value : α → Nat} (hvalue : (table.map value).Nodup)
    {a : α} (ha : a ∈ table) : table.find? (fun b ↦ value b = value a) = some a := by
  cases h : table.find? (fun b ↦ value b = value a) with
  | none => exact absurd (List.find?_eq_none.mp h a ha) (by simp)
  | some b =>
    have hb : value b = value a := by simpa using List.find?_some h
    rw [List.inj_on_of_nodup_map hvalue (List.mem_of_find?_eq_some h) ha hb]

/-- An enumeration, by the numbers of its values. -/
def enum (l : Layout Nat) (table : List α) (value : α → Nat) (htable : ∀ a, a ∈ table)
    (hvalue : (table.map value).Nodup) : Layout α :=
  l.map (fun _ ↦ True) (fun n ↦ table.find? fun a ↦ value a = n) value
    (fun a _ ↦ find?_value hvalue (htable a))
    (fun _ _ h ↦ ⟨trivial, by simpa using List.find?_some h⟩)

end Values

/-! ## Structures

Members one behind the other, with the padding that alignment asks for. -/

section Structures

/-- The next number that is aligned. -/
def alignUp (n align : Nat) : Nat := n + (align - n % align) % align

theorem le_alignUp (n align : Nat) : n ≤ alignUp n align := Nat.le_add_right ..

/-- The places of two members and of the padding between them. -/
theorem exists_members {mem : List UInt8} {s o n : Nat} (hso : s ≤ o) (hmem : mem.length = o + n) :
    ∃ x gap y, mem = x ++ (gap ++ y) ∧ x.length = s ∧ gap.length = o - s ∧ y.length = n := by
  refine ⟨mem.take s, (mem.drop s).take (o - s), (mem.drop s).drop (o - s), ?_, ?_, ?_, ?_⟩
  · rw [List.take_append_drop, List.take_append_drop]
  · rw [List.length_take, hmem]
    omega
  · rw [List.length_take, List.length_drop, hmem]
    omega
  · rw [List.length_drop, List.length_drop, hmem]
    omega

section Members

variable {x gap y : List UInt8} {s o : Nat}

theorem take_members (hx : x.length = s) : (x ++ (gap ++ y)).take s = x := List.take_left' hx

theorem gap_members (hx : x.length = s) (hgap : gap.length = o - s) :
    ((x ++ (gap ++ y)).drop s).take (o - s) = gap := by
  rw [List.drop_left' hx, List.take_left' hgap]

theorem drop_members (hso : s ≤ o) (hx : x.length = s) (hgap : gap.length = o - s) :
    (x ++ (gap ++ y)).drop o = y := by
  rw [← List.append_assoc, List.drop_left']
  rw [List.length_append]
  omega

end Members

/-- A layout with one member behind another, where the place and size of the second are fixed and
how it lies in memory may depend on the first. -/
def seq (l : Layout α) (size align : Nat) (l' : α → Layout β) (hsize : ∀ a, (l' a).size = size) :
    Layout (α × β) where
  size := alignUp l.size align + size
  align := max l.align align
  Fits p := l.Fits p.1 ∧ (l' p.1).Fits p.2
  store p mem := l.store p.1 (mem.take l.size) ++
    ((mem.drop l.size).take (alignUp l.size align - l.size) ++
      (l' p.1).store p.2 (mem.drop (alignUp l.size align)))
  load mem := (l.load (mem.take l.size)).bind fun a ↦
    ((l' a).load (mem.drop (alignUp l.size align))).map (a, ·)
  length_store ha hmem := by
    have hle := le_alignUp l.size align
    obtain ⟨x, gap, y, rfl, hx, hgap, hy⟩ := exists_members hle hmem
    rw [take_members hx, gap_members hx hgap, drop_members hle hx hgap, List.length_append,
      List.length_append, l.length_store ha.1 hx, hgap,
      (l' _).length_store ha.2 (hy.trans (hsize _).symm), hsize]
    omega
  load_store ha hmem := by
    have hle := le_alignUp l.size align
    obtain ⟨x, gap, y, rfl, hx, hgap, hy⟩ := exists_members hle hmem
    rw [take_members hx, gap_members hx hgap, drop_members hle hx hgap]
    have hx' := l.length_store ha.1 hx
    rw [take_members hx', drop_members hle hx' hgap, l.load_store ha.1 hx, Option.bind_some,
      (l' _).load_store ha.2 (hy.trans (hsize _).symm), Option.map_some]
  fits_of_load hmem h := by
    have hle := le_alignUp l.size align
    obtain ⟨x, gap, y, rfl, hx, hgap, hy⟩ := exists_members hle hmem
    rw [take_members hx, drop_members hle hx hgap] at h
    obtain ⟨a, ha, h⟩ := Option.bind_eq_some_iff.mp h
    obtain ⟨b, hb, rfl⟩ := Option.map_eq_some_iff.mp h
    exact ⟨l.fits_of_load hx ha, (l' a).fits_of_load (hy.trans (hsize a).symm) hb⟩
  store_load hmem h := by
    have hle := le_alignUp l.size align
    obtain ⟨x, gap, y, rfl, hx, hgap, hy⟩ := exists_members hle hmem
    rw [take_members hx, drop_members hle hx hgap] at h
    obtain ⟨a, ha, h⟩ := Option.bind_eq_some_iff.mp h
    obtain ⟨b, hb, rfl⟩ := Option.map_eq_some_iff.mp h
    rw [take_members hx, gap_members hx hgap, drop_members hle hx hgap, l.store_load hx ha,
      (l' a).store_load (hy.trans (hsize a).symm) hb]

/-- A layout with one member behind another that is independent of it. -/
def pair (l : Layout α) (l' : Layout β) : Layout (α × β) :=
  l.seq l'.size l'.align (fun _ ↦ l') fun _ ↦ rfl

/-- With padding up to the alignment. -/
def close (l : Layout α) : Layout α where
  size := alignUp l.size l.align
  align := l.align
  Fits := l.Fits
  store a mem := l.store a (mem.take l.size) ++ mem.drop l.size
  load mem := l.load (mem.take l.size)
  length_store ha hmem := by
    have hle := le_alignUp l.size l.align
    rw [List.length_append, l.length_store ha (by rw [List.length_take]; omega), List.length_drop]
    omega
  load_store ha hmem := by
    have hle := le_alignUp l.size l.align
    have hfirst : (List.take l.size _).length = l.size := List.length_take_of_le (hmem ▸ hle)
    rw [List.take_left' (l.length_store ha hfirst), l.load_store ha hfirst]
  fits_of_load hmem h :=
    l.fits_of_load (List.length_take_of_le (hmem ▸ le_alignUp l.size l.align)) h
  store_load hmem h := by
    rw [l.store_load (List.length_take_of_le (hmem ▸ le_alignUp l.size l.align)) h,
      List.take_append_drop]

end Structures

/-! ## What fits

Which values have an image at all, computed for every way to put layouts together. -/

section Fitting

@[simp] theorem word_fits {n a : Nat} : (word n).Fits a ↔ a < 256 ^ n := .rfl

@[simp] theorem reverse_fits {l : Layout α} {a : α} : l.reverse.Fits a ↔ l.Fits a := .rfl

@[simp] theorem chars_fits {n : Nat} {s : List UInt8} :
    (chars n).Fits s ↔ s.length < n ∧ 0 ∉ s := .rfl

@[simp] theorem buffer_fits {n k : Nat} {bytes : List UInt8} :
    (buffer n k).Fits bytes ↔ k ≤ n ∧ bytes.length = k := .rfl

@[simp] theorem gap_fits {n align : Nat} {u : Unit} : (gap n align).Fits u := trivial

@[simp] theorem equiv_fits {l : Layout α} {e : α ≃ β} {b : β} :
    (l.equiv e).Fits b ↔ l.Fits (e.symm b) := .rfl

@[simp] theorem pair_fits {l : Layout α} {l' : Layout β} {p : α × β} :
    (l.pair l').Fits p ↔ l.Fits p.1 ∧ l'.Fits p.2 := .rfl

@[simp] theorem close_fits {l : Layout α} {a : α} : l.close.Fits a ↔ l.Fits a := .rfl

end Fitting

/-! ## Datagrams

`recvfrom` writes what has arrived over the front of an object.  A datagram as long as the object
replaces all of it, so that reading it gives what the sender wrote. -/

section Datagrams

/-- What an object holds after a datagram has been received into it: what is too long is cut off,
and what is too short leaves the rest as it was. -/
def received (l : Layout α) (fresh datagram : List UInt8) : List UInt8 :=
  datagram.take l.size ++ fresh.drop datagram.length

theorem length_received (l : Layout α) {fresh : List UInt8} (hfresh : fresh.length = l.size)
    (datagram : List UInt8) : (l.received fresh datagram).length = l.size := by
  rw [received, List.length_append, List.length_take, List.length_drop]
  omega

theorem received_of_length (l : Layout α) (fresh : List UInt8) {datagram : List UInt8}
    (hfresh : fresh.length = l.size) (h : datagram.length = l.size) :
    l.received fresh datagram = datagram := by
  rw [received, List.take_of_length_le h.le, List.drop_eq_nil_of_le (by omega), List.append_nil]

/-- **A value that is sent is received**, whatever is in the memory that it is sent from and in the
memory that it is received into. -/
theorem load_received (l : Layout α) {a : α} (ha : l.Fits a) {mem fresh : List UInt8}
    (hmem : mem.length = l.size) (hfresh : fresh.length = l.size) :
    l.load (l.received fresh (l.store a mem)) = some a := by
  rw [l.received_of_length fresh hfresh (l.length_store ha hmem), l.load_store ha hmem]

end Datagrams

end Layout
