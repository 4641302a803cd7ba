import Playhead.Bytes
/-!
# Image — RGBA pictures and the buffers they live in

A buffer is painted in place: `Image.resize` allocates only if the dimensions change, so a buffer that goes round
between the decoder and the picture ring is allocated once for each size.  Dimensions are numbers of 32 bits, and how
much is allocated is counted in 64 bits (`Image.bytesOf`): a picture of more than that gets a buffer that is too small.
-/
namespace Playhead

inductive PixelFormat
  | rgba
deriving DecidableEq, Repr, Inhabited

structure Color where
  red : UInt8 := 0
  green : UInt8 := 0
  blue : UInt8 := 0
  alpha : UInt8 := 0
deriving DecidableEq, Repr, Inhabited

def Color.bytes (c : Color) : ByteArray := ⟨#[c.red, c.green, c.blue, c.alpha]⟩

/-- A picture of four bytes a pixel, row by row; no data as long as nothing was allocated. -/
structure Image where
  width : Nat := 0
  height : Nat := 0
  data : ByteArray := .empty
deriving DecidableEq, Inhabited

namespace Image

def stride (image : Image) : Nat := image.width * 4

def isAllocated (image : Image) : Bool := image.data.size != 0

/-- The size of a buffer for a picture of these dimensions, in a word of 64 bits. -/
def bytesOf (width height : Nat) : Nat := width * height * 4 % UInt64.size

/-- Gives a buffer dimensions; one that has them already and holds data is left as it is. -/
def resize (image : Image) (width height : Nat) : Image :=
  if image.width = width ∧ image.height = height ∧ image.isAllocated then image
  else ⟨width, height, Bytes.zeros (bytesOf width height)⟩

def fill (image : Image) (c : Color) : Image :=
  let pixels := image.data.size / 4
  { image with data := Bytes.repeated c.bytes pixels ++ image.data.extract (pixels * 4) image.data.size }

def paint (image : Image) (width height : Nat) (c : Color) : Image :=
  (image.resize width height).fill c

def poke (image : Image) (offset : Nat) (byte : UInt8) : Image :=
  { image with data := if h : offset < image.data.size then image.data.set offset byte h else image.data }

def plain (width height : Nat) (c : Color) : Image :=
  ⟨width, height, Bytes.repeated c.bytes (bytesOf width height / 4)⟩

theorem bytesOf_eq (width height : Nat) : bytesOf width height / 4 * 4 = bytesOf width height := by
  unfold bytesOf UInt64.size
  omega

theorem bytesOf_of_lt {width height : Nat} (h : 4 * width * height < UInt64.size) :
    bytesOf width height = 4 * width * height := by
  rw [bytesOf, Nat.mul_comm, ← Nat.mul_assoc, Nat.mod_eq_of_lt h]

theorem plain_of_lt {width height : Nat} (h : 4 * width * height < UInt64.size) (c : Color) :
    plain width height c = ⟨width, height, Bytes.repeated c.bytes (width * height)⟩ := by
  rw [plain, bytesOf_of_lt h, Nat.mul_assoc, Nat.mul_div_cancel_left _ (by decide)]

def Whole (image : Image) : Prop := image.data.size = bytesOf image.width image.height

theorem whole_default : Whole {} := rfl

theorem whole_resize {image : Image} (h : image.Whole) (width height : Nat) : (image.resize width height).Whole := by
  unfold resize
  split
  · exact h
  · exact Bytes.size_zeros _

theorem size_data_fill (image : Image) (c : Color) : (image.fill c).data.size = image.data.size := by
  have hc : c.bytes.size = 4 := rfl
  simp only [fill, ByteArray.size_append, Bytes.size_repeated, ByteArray.size_extract, hc]
  omega

theorem whole_fill {image : Image} (h : image.Whole) (c : Color) : (image.fill c).Whole := by
  rw [Whole, size_data_fill]
  exact h

theorem dimensions_resize (image : Image) (width height : Nat) :
    (image.resize width height).width = width ∧ (image.resize width height).height = height := by
  unfold resize
  split
  · next h => exact ⟨h.1, h.2.1⟩
  · exact ⟨rfl, rfl⟩

theorem fill_of_whole {image : Image} (h : image.Whole) (c : Color) :
    image.fill c = plain image.width image.height c := by
  have hs : image.data.size = bytesOf image.width image.height := h
  have he : image.data.extract (bytesOf image.width image.height) image.data.size = ByteArray.empty := by
    rw [hs, ByteArray.extract_eq_empty_iff]
    exact Nat.min_le_left _ _
  rw [hs] at he
  simp only [fill, plain, hs, bytesOf_eq, he, ByteArray.append_empty]

/-- What is painted into a whole buffer does not show what was in it. -/
theorem paint_of_whole {image : Image} (h : image.Whole) (width height : Nat) (c : Color) :
    image.paint width height c = plain width height c := by
  obtain ⟨hw, hh⟩ := image.dimensions_resize width height
  rw [paint, fill_of_whole (whole_resize h width height), hw, hh]

theorem isAllocated_resize (image : Image) {width height : Nat} (hw : 0 < width) (hh : 0 < height)
    (h : 4 * width * height < UInt64.size) : (image.resize width height).isAllocated = true := by
  unfold resize
  split
  · next hs => exact hs.2.2
  · rw [isAllocated, Bytes.size_zeros, bne_iff_ne, bytesOf_of_lt h]
    exact Nat.ne_of_gt (Nat.mul_pos (Nat.mul_pos (by decide) hw) hh)

end Image

structure VideoFrame where
  pts : Float
  width : Nat
  height : Nat
  format : PixelFormat := .rgba
  data : ByteArray
deriving Inhabited

end Playhead
