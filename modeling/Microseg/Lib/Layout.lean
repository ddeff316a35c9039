import Mathlib.Data.List.Forall2
import Microseg.Lib.Words
/-!
# Structs in memory

A struct is a list of fields with sizes and alignments. A packed one puts each field right after the one before,
another one at the next multiple of the field's alignment, and rounds its size up to that of its largest
alignment. `image` is a value in memory, with zeros where no field is, and `loads` reads the fields
back at their offsets (`loads_image`). A store at the offset of a field changes this field and no other
(`patch_image`). Two declarations with the same sizes, offsets and total size have the same images (`image_congr`):
one program may write by the one and another read by the other (`Codec.read_congr_store`).
-/
namespace Layout
open Words

structure Field where
  name : String
  size : Nat
  align : Nat
  align_pos : 0 < align

structure Struct where
  packed : Bool
  fields : List Field

def u8 (name : String) : Field := ⟨name, 1, 1, by decide⟩
def u16 (name : String) : Field := ⟨name, 2, 2, by decide⟩
def u32 (name : String) : Field := ⟨name, 4, 4, by decide⟩
def u64 (name : String) : Field := ⟨name, 8, 8, by decide⟩

/-- An array of `n` bytes. -/
def bytes (name : String) (n : Nat) : Field := ⟨name, n, 1, by decide⟩

def roundUp (n align : Nat) : Nat := (n + (align - 1)) / align * align

/-- Where a field goes that comes after `n` bytes. -/
def place (packed : Bool) (n : Nat) (f : Field) : Nat := if packed then n else roundUp n f.align

def offsetsFrom (packed : Bool) : Nat → List Field → List Nat
  | _, [] => []
  | n, f :: fs => place packed n f :: offsetsFrom packed (place packed n f + f.size) fs

def endFrom (packed : Bool) : Nat → List Field → Nat
  | n, [] => n
  | n, f :: fs => endFrom packed (place packed n f + f.size) fs

/-- The fields in memory, from byte `n` of the struct on. -/
def imageFrom (packed : Bool) : Nat → List Field → List (List U8) → List U8
  | n, f :: fs, v :: vs =>
    List.replicate (place packed n f - n) 0 ++ (v ++ imageFrom packed (place packed n f + f.size) fs vs)
  | _, _, _ => []

namespace Struct

def offsets (s : Struct) : List Nat := offsetsFrom s.packed 0 s.fields

def align (s : Struct) : Nat := if s.packed then 1 else (s.fields.map Field.align).foldr max 1

def sizeof (s : Struct) : Nat := roundUp (endFrom s.packed 0 s.fields) s.align

def image (s : Struct) (vs : List (List U8)) : List U8 :=
  imageFrom s.packed 0 s.fields vs ++ List.replicate (s.sizeof - endFrom s.packed 0 s.fields) 0

/-- The fields' values have the fields' sizes. -/
def Fits (s : Struct) (vs : List (List U8)) : Prop := List.Forall₂ (fun f v => v.length = f.size) s.fields vs

end Struct

/-- `n` bytes from offset `o` on. -/
def load (b : List U8) (o n : Nat) : List U8 := (b.drop o).take n

/-- The fields of a struct, read at their offsets. -/
def Struct.loads (s : Struct) (b : List U8) : List (List U8) :=
  (s.offsets.zip s.fields).map fun p => load b p.1 p.2.size

/-- The bytes `w` stored at offset `o`. -/
def patch (b : List U8) (o : Nat) (w : List U8) : List U8 := b.take o ++ (w ++ b.drop (o + w.length))

/-- The offset of a field, by its name. -/
def Struct.offsetOf (s : Struct) (name : String) : Nat := s.offsets.getD (s.fields.findIdx fun f => f.name = name) 0

/-- `p->name = w`. -/
def setField (s : Struct) (name : String) (w b : List U8) : List U8 := patch b (s.offsetOf name) w

/-- `p->name += n`, on eight bytes. -/
def addField (s : Struct) (name : String) (n : U64) (b : List U8) : List U8 :=
  setField s name (store64 (le64 (load b (s.offsetOf name) 8) + n)) b

/-! ## Offsets -/

theorem le_roundUp (n : Nat) {align : Nat} (h : 0 < align) : n ≤ roundUp n align := by
  rw [roundUp]
  have hdiv := Nat.div_add_mod (n + (align - 1)) align
  have hmod := Nat.mod_lt (n + (align - 1)) h
  rw [Nat.mul_comm] at hdiv
  omega

theorem le_place (packed : Bool) (n : Nat) (f : Field) : n ≤ place packed n f := by
  unfold place
  split
  · exact Nat.le_refl n
  · exact le_roundUp n f.align_pos

/-- Fields come after the bytes before them. -/
theorem le_offsetsFrom {packed : Bool} {n : Nat} {fs : List Field} {o : Nat} (h : o ∈ offsetsFrom packed n fs) : n ≤ o := by
  induction fs generalizing n with
  | nil => cases h
  | cons f fs ih =>
    have hf := le_place packed n f
    rcases List.mem_cons.1 h with rfl | h
    · exact hf
    · have := ih h
      omega

/-! ## Reading -/

/-- Bytes before an offset do not matter. -/
theorem load_append {a b : List U8} {o n : Nat} (h : a.length ≤ o) : load (a ++ b) o n = load b (o - a.length) n := by
  rw [load, load, List.drop_append, List.drop_eq_nil_of_le h, List.nil_append]

theorem load_self (v b : List U8) : load (v ++ b) 0 v.length = v := by
  rw [load, List.drop_zero, List.take_left]

/-- The part of an image from byte `n` on, read at offsets of the whole. -/
theorem loads_imageFrom (packed : Bool) (n : Nat) {fs : List Field} {vs : List (List U8)}
    (h : List.Forall₂ (fun f v => v.length = f.size) fs vs) (rest : List U8) :
    ((offsetsFrom packed n fs).zip fs).map (fun p => load (imageFrom packed n fs vs ++ rest) (p.1 - n) p.2.size) = vs := by
  induction h generalizing n with
  | nil => rfl
  | @cons f v fs vs hv _ ih =>
    have hf := le_place packed n f
    rw [imageFrom, offsetsFrom, List.zip_cons_cons, List.map_cons, List.append_assoc, List.append_assoc]
    congr 1
    · rw [load_append (by simp), List.length_replicate, Nat.sub_self, ← hv]
      exact load_self v _
    · -- the later fields come after this one
      refine Eq.trans (List.map_congr_left fun p hp => ?_) (ih (place packed n f + f.size))
      have hp' : place packed n f + f.size ≤ p.1 := le_offsetsFrom (List.of_mem_zip hp).1
      have hsub : p.1 - n - (place packed n f - n) - v.length = p.1 - (place packed n f + f.size) := by omega
      rw [load_append (by rw [List.length_replicate]; omega), List.length_replicate, load_append (by omega), hsub]

/-- **Reading back**: a value's fields are at their offsets. -/
theorem loads_image {s : Struct} {vs : List (List U8)} (h : s.Fits vs) : s.loads (s.image vs) = vs :=
  loads_imageFrom s.packed 0 h _

/-- One field, read at its offset. -/
theorem load_image {s : Struct} {vs : List (List U8)} (h : s.Fits vs) {i o : Nat} {v : List U8}
    (ho : s.offsets[i]? = some o) (hv : vs[i]? = some v) : load (s.image vs) o v.length = v := by
  have hloads := congrArg (·[i]?) (loads_image h)
  obtain ⟨hlen, hsize⟩ := List.forall₂_iff_get.1 h
  obtain ⟨hi, rfl⟩ := List.getElem?_eq_some_iff.1 hv
  have hf : i < s.fields.length := by omega
  have hzip : (s.offsets.zip s.fields)[i]? = some (o, s.fields[i]) :=
    List.getElem?_zip_eq_some.2 ⟨ho, List.getElem?_eq_getElem hf⟩
  have hv' : vs[i].length = s.fields[i].size := hsize i hf hi
  rw [hv']
  rw [hv] at hloads
  simp only [Struct.loads, List.getElem?_map, hzip, Option.map_some] at hloads
  exact Option.some.inj hloads

/-! ## Writing -/

theorem patch_append {a b w : List U8} {o : Nat} (h : a.length ≤ o) : patch (a ++ b) o w = a ++ patch b (o - a.length) w := by
  have hle : a.length ≤ o + w.length := by omega
  have hsub : o + w.length - a.length = o - a.length + w.length := by omega
  rw [patch, patch, List.take_append, List.take_of_length_le h, List.drop_append, List.drop_eq_nil_of_le hle,
    List.nil_append, List.append_assoc, hsub]

theorem patch_self {v w b : List U8} (h : w.length = v.length) : patch (v ++ b) 0 w = w ++ b := by
  rw [patch, List.take_zero, List.nil_append, Nat.zero_add, h, List.drop_left]

theorem patch_imageFrom (packed : Bool) (n : Nat) {fs : List Field} {vs : List (List U8)}
    (h : List.Forall₂ (fun f v => v.length = f.size) fs vs) (rest : List U8) {i o : Nat} {f : Field} {w : List U8}
    (ho : (offsetsFrom packed n fs)[i]? = some o) (hf : fs[i]? = some f) (hw : w.length = f.size) :
    patch (imageFrom packed n fs vs ++ rest) (o - n) w = imageFrom packed n fs (vs.set i w) ++ rest := by
  induction h generalizing n i with
  | nil => cases hf
  | @cons g v fs vs hv _ ih =>
    have hg := le_place packed n g
    rw [imageFrom, List.append_assoc, List.append_assoc]
    cases i with
    | zero =>
      cases hf
      cases ho
      rw [List.set_cons_zero, imageFrom, patch_append (by simp), List.length_replicate, Nat.sub_self,
        patch_self (hw.trans hv.symm)]
      simp
    | succ i =>
      -- the field is among the later ones
      have ho' : place packed n g + g.size ≤ o := le_offsetsFrom (List.mem_of_getElem? ho)
      have hsub : o - n - (place packed n g - n) - v.length = o - (place packed n g + g.size) := by omega
      rw [List.set_cons_succ, imageFrom, patch_append (by rw [List.length_replicate]; omega), List.length_replicate,
        patch_append (by omega), hsub, ih _ ho hf]
      simp

/-- **A store at a field** changes this field. -/
theorem patch_image {s : Struct} {vs : List (List U8)} (h : s.Fits vs) {i o : Nat} {f : Field} {w : List U8}
    (ho : s.offsets[i]? = some o) (hf : s.fields[i]? = some f) (hw : w.length = f.size) :
    patch (s.image vs) o w = s.image (vs.set i w) :=
  patch_imageFrom s.packed 0 h _ ho hf hw

/-! ## Two declarations of one layout -/

/-- The same sizes in the same places. -/
structure Agrees (s t : Struct) : Prop where
  sizes : s.fields.map Field.size = t.fields.map Field.size
  offsets : s.offsets = t.offsets
  sizeof : s.sizeof = t.sizeof

instance (s t : Struct) : Decidable (Agrees s t) :=
  decidable_of_iff (s.fields.map Field.size = t.fields.map Field.size ∧ s.offsets = t.offsets ∧ s.sizeof = t.sizeof)
    ⟨fun ⟨h₁, h₂, h₃⟩ => ⟨h₁, h₂, h₃⟩, fun ⟨h₁, h₂, h₃⟩ => ⟨h₁, h₂, h₃⟩⟩

theorem imageFrom_congr {p q : Bool} {n : Nat} {fs gs : List Field} (hsizes : fs.map Field.size = gs.map Field.size)
    (hoffsets : offsetsFrom p n fs = offsetsFrom q n gs) (vs : List (List U8)) :
    imageFrom p n fs vs = imageFrom q n gs vs ∧ endFrom p n fs = endFrom q n gs := by
  induction fs generalizing n gs vs with
  | nil =>
    cases gs with
    | nil => exact ⟨rfl, rfl⟩
    | cons g gs => cases hsizes
  | cons f fs ih =>
    cases gs with
    | nil => cases hsizes
    | cons g gs =>
      obtain ⟨hsize, hsizes⟩ := List.cons.inj hsizes
      obtain ⟨hplace, hoffsets⟩ := List.cons.inj hoffsets
      rw [hplace, hsize] at hoffsets
      rw [endFrom, endFrom, hplace, hsize]
      cases vs with
      | nil => exact ⟨rfl, (ih hsizes hoffsets []).2⟩
      | cons v vs =>
        obtain ⟨himage, hend⟩ := ih hsizes hoffsets vs
        rw [imageFrom, imageFrom, hplace, hsize, himage]
        exact ⟨rfl, hend⟩

theorem image_congr {s t : Struct} (h : Agrees s t) (vs : List (List U8)) : s.image vs = t.image vs := by
  obtain ⟨himage, hend⟩ := imageFrom_congr h.sizes h.offsets vs
  rw [Struct.image, Struct.image, himage, hend, h.sizeof]

theorem Struct.Fits.congr {s t : Struct} (h : Agrees s t) {vs : List (List U8)} (hvs : s.Fits vs) : t.Fits vs := by
  have hmap : ∀ {u : Struct}, u.Fits vs ↔ u.fields.map Field.size = vs.map List.length := fun {u} => by
    rw [Struct.Fits, ← List.forall₂_eq_eq_eq, List.forall₂_map_left_iff, List.forall₂_map_right_iff]
    simp only [eq_comm]
  rw [hmap] at hvs ⊢
  exact h.sizes.symm.trans hvs

/-! ## Values as fields -/

/-- A type whose values are the fields of a struct. -/
structure Codec (s : Struct) (α : Type) where
  fields : α → List (List U8)
  value : List (List U8) → α
  fits : ∀ a, s.Fits (fields a)
  value_fields : ∀ a, value (fields a) = a

namespace Codec

variable {s t : Struct} {α : Type} (c : Codec s α)

def store (a : α) : List U8 := s.image (c.fields a)

def read (b : List U8) : α := c.value (s.loads b)

/-- The bytes are those of the value. -/
def Holds (a : α) (b : List U8) : Prop := b = c.store a

theorem holds_store (a : α) : c.Holds a (c.store a) := rfl

@[simp] theorem read_store (a : α) : c.read (c.store a) = a := by
  rw [read, store, loads_image (c.fits a), c.value_fields]

theorem store_injective : Function.Injective c.store := fun a a' h => by
  rw [← c.read_store a, h, c.read_store]

/-- The same fields under another declaration. -/
def congr (h : Agrees s t) : Codec t α where
  fields := c.fields
  value := c.value
  fits a := (c.fits a).congr h
  value_fields := c.value_fields

@[simp] theorem store_congr (h : Agrees s t) (a : α) : (c.congr h).store a = c.store a :=
  (image_congr h (c.fields a)).symm

/-- **One writes, the other reads**: what is written by one declaration is read by one that agrees with it. -/
@[simp] theorem read_congr_store (h : Agrees s t) (a : α) : (c.congr h).read (c.store a) = a := by
  rw [← c.store_congr h, read_store]

variable {c} {name : String} {i : Nat} {f : Field} {a a' : α}

/-- **A store through a pointer** to one field gives the value with this field changed. -/
theorem setField_store {w : List U8} (ho : s.offsets[i]? = some (s.offsetOf name)) (hf : s.fields[i]? = some f)
    (hw : w.length = f.size) (ha : c.fields a' = (c.fields a).set i w) : setField s name w (c.store a) = c.store a' := by
  rw [setField, store, patch_image (c.fits a) ho hf hw, ← ha]
  rfl

/-- A counter that is moved in place. -/
theorem addField_store {x n : U64} (ho : s.offsets[i]? = some (s.offsetOf name)) (hf : s.fields[i]? = some f)
    (hw : f.size = 8) (hx : (c.fields a)[i]? = some (store64 x)) (ha : c.fields a' = (c.fields a).set i (store64 (x + n))) :
    addField s name n (c.store a) = c.store a' := by
  have hload : load (c.store a) (s.offsetOf name) 8 = store64 x := load_image (c.fits a) ho hx
  have hle : le64 (store64 x) = x := by simpa using le64_store64 x []
  rw [addField, hload, hle]
  exact setField_store ho hf hw.symm ha

end Codec

end Layout
