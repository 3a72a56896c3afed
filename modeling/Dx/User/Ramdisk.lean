import Mathlib.Data.BitVec

/-!
# The ramdisk

`libtar.c` reads a tar image in memory, and the loader makes a directory of it (`unpack_ramdisk`). The
walk goes from one header to the next over as many blocks as the header says. The sum is taken in 32
bits: a header that claims nearly 4 GB leads back to itself, or to something before it, and one whose
file ends behind the image leads out of it (`not_ramdisk_walk`). Otherwise the entries tile the image
up to the first header without a name (`Fits`).
-/

namespace Dx.User

open BitVec

abbrev Image := BitVec 32 → UInt8

def tarBlockSize : BitVec 32 := 512

def calculateBlockCount (size : BitVec 32) : BitVec 32 :=
  size / tarBlockSize + if size % tarBlockSize ≠ 0 then 1 else 0

/-- The loop of `read_file_size`; `none` when it does not end within `n` characters. -/
def readFileSizeLoop (memory : Image) : ℕ → BitVec 32 → BitVec 32 → Option (BitVec 32)
  | 0, _, _ => none
  | n + 1, rawSize, size =>
    if memory rawSize = 0 then some size
    else readFileSizeLoop memory n (rawSize + 1)
      (size * 8 + ((memory rawSize).toBitVec.signExtend 32 - 0x30))

/-- `read_file_size(header)`. After all of the memory, the loop would begin again. -/
def readFileSize (memory : Image) (header : BitVec 32) : Option (BitVec 32) :=
  readFileSizeLoop memory (2 ^ 32) (header + 124) 0

/-- `tar_is_exhausted(image)`: there is no header, or it has no name. -/
def TarIsExhausted (memory : Image) (image : BitVec 32) : Prop := image = 0 ∨ memory image = 0
deriving Decidable

structure TarEntry where
  header : BitVec 32
  file : BitVec 32
  fileSize : BitVec 32

/-- `tar_read(image, entry)`, with an `entry` that is not null: where the next entry is, and what is
written to this one. -/
def tarRead (memory : Image) (image : BitVec 32) : Option (BitVec 32 × Option TarEntry) :=
  if TarIsExhausted memory image then some (0, none)
  else (readFileSize memory image).map fun fileSize =>
    let file := image + tarBlockSize
    (file + calculateBlockCount fileSize * tarBlockSize, some ⟨image, file, fileSize⟩)

/-- `unpack_ramdisk(ramdisk)`, where `malloc` has room for so many entries; `none` when it does not end
within `n` steps. -/
def unpackRamdisk (memory : Image) : ℕ → ℕ → BitVec 32 → Option (List (Option TarEntry))
  | 0, _, _ => none
  | n + 1, room, ramdisk =>
    if TarIsExhausted memory ramdisk then some []
    else match room with
      | 0 => some []
      | room + 1 => (tarRead memory ramdisk).bind fun (next, entry) =>
        (unpackRamdisk memory n room next).map (entry :: ·)

/-! ### What the walk is for -/

/-- The blocks of a header and its file. -/
def extent (size : BitVec 32) : ℕ := 512 + (size.toNat + 511) / 512 * 512

/-- The entries lie one behind the other, from `start` to `stop`. -/
def Tiles (stop : ℕ) : ℕ → List (Option TarEntry) → Prop
  | start, [] => start = stop
  | _, none :: _ => False
  | start, some entry :: entries => entry.header.toNat = start ∧ entry.file.toNat = start + 512 ∧
      start + extent entry.fileSize ≤ stop ∧ Tiles stop (start + extent entry.fileSize) entries

/-- The walk goes forward over the entries, within one step for each block of the image, up to a header
that has no name, or until there is no more room. -/
def Walks (memory : Image) (start : BitVec 32) (limit room : ℕ) : Prop :=
  ∃ entries stop, unpackRamdisk memory ((limit - start.toNat) / 512 + 1) room start = some entries ∧
    Tiles stop start.toNat entries ∧ stop ≤ limit ∧
    (entries.length = room ∨ memory (BitVec.ofNat 32 stop) = 0)

/-- Every entry ends within the image, and behind it is another one, or a header without a name. -/
inductive Fits (memory : Image) (limit : ℕ) : BitVec 32 → Prop
  | last {image : BitVec 32} : memory image = 0 → image.toNat ≤ limit → Fits memory limit image
  | entry {image next size : BitVec 32} : memory image ≠ 0 → readFileSize memory image = some size →
      next.toNat = image.toNat + extent size → next.toNat ≤ limit → Fits memory limit next →
      Fits memory limit image

/-! ### The walk -/

variable {memory : Image} {image next size : BitVec 32} {entries : List (Option TarEntry)}
  {limit n room stop : ℕ}

theorem toNat_next (h : image.toNat + extent size < 2 ^ 32) :
    (image + tarBlockSize).toNat = image.toNat + 512 ∧
      (image + tarBlockSize + calculateBlockCount size * tarBlockSize).toNat =
        image.toNat + extent size := by
  unfold extent at *
  have hfile : (image + tarBlockSize).toNat = image.toNat + 512 := by
    rw [toNat_add, tarBlockSize]
    simp
    omega
  have hcount : (calculateBlockCount size).toNat = (size.toNat + 511) / 512 := by
    unfold calculateBlockCount tarBlockSize
    have hmod : size % 512 ≠ 0 ↔ size.toNat % 512 ≠ 0 := by
      rw [ne_eq, ← toNat_inj, toNat_umod]
      rfl
    split_ifs with hzero <;> rw [hmod] at hzero <;> rw [toNat_add, toNat_udiv] <;>
      simp <;> omega
  refine ⟨hfile, ?_⟩
  rw [toNat_add, hfile, toNat_mul, hcount, tarBlockSize]
  simp
  omega

theorem ne_zero_of_toNat (h : next.toNat = image.toNat + extent size) : next ≠ 0 := by
  rintro rfl
  unfold extent at h
  simp at h
  omega

theorem unpackRamdisk_succ (himage : image ≠ 0) (hname : memory image ≠ 0)
    (hsize : readFileSize memory image = some size) :
    unpackRamdisk memory (n + 1) (room + 1) image =
      (unpackRamdisk memory n room (image + tarBlockSize + calculateBlockCount size * tarBlockSize)).map
        (some ⟨image, image + tarBlockSize, size⟩ :: ·) := by
  have hexhausted : ¬ TarIsExhausted memory image := not_or.2 ⟨himage, hname⟩
  rw [unpackRamdisk, if_neg hexhausted, tarRead, if_neg hexhausted, hsize]
  rfl

theorem Tiles.le {start : ℕ} (h : Tiles stop start entries) : start ≤ stop := by
  match entries with
  | [] => exact Nat.le_of_eq h
  | none :: _ => cases h
  | some entry :: _ => exact (Nat.le_add_right _ _).trans h.2.2.1

/-- With room for as many entries as there are steps, a walk that ends has been over entries that fit. -/
theorem fits_of_unpackRamdisk (himage : image ≠ 0) (hlimit : limit < 2 ^ 32) (hroom : n ≤ room)
    (h : unpackRamdisk memory n room image = some entries) (htiles : Tiles stop image.toNat entries)
    (hstop : stop ≤ limit) : Fits memory limit image := by
  induction n generalizing image room entries with
  | zero => cases h
  | succ n ih =>
    by_cases hname : memory image = 0
    · rw [show unpackRamdisk memory (n + 1) room image = some [] from if_pos (.inr hname)] at h
      cases h
      exact .last hname (htiles.trans_le hstop)
    · obtain ⟨room, rfl⟩ := Nat.exists_eq_add_of_le' (Nat.one_le_of_lt hroom)
      have hexhausted : ¬ TarIsExhausted memory image := not_or.2 ⟨himage, hname⟩
      cases hsize : readFileSize memory image with
      | none => simp [unpackRamdisk, tarRead, hexhausted, hsize] at h
      | some size =>
        rw [unpackRamdisk_succ himage hname hsize] at h
        obtain ⟨rest, hrest, rfl⟩ := Option.map_eq_some_iff.1 h
        obtain ⟨-, -, hle, htiles⟩ := htiles
        have hnext := (toNat_next (hle.trans_lt (hstop.trans_lt hlimit))).2
        refine .entry hname hsize hnext (hnext ▸ hle.trans hstop) (ih ?_ (by omega) hrest (hnext ▸ htiles))
        exact ne_zero_of_toNat hnext

theorem Fits.walks (h : Fits memory limit image) (himage : image ≠ 0) (hlimit : limit < 2 ^ 32)
    (hn : (limit - image.toNat) / 512 < n) (room : ℕ) :
    ∃ entries stop, unpackRamdisk memory n room image = some entries ∧
      Tiles stop image.toNat entries ∧ stop ≤ limit ∧
      (entries.length = room ∨ memory (BitVec.ofNat 32 stop) = 0) := by
  induction h generalizing n room with
  | @last image hname hle =>
    obtain ⟨n, rfl⟩ := Nat.exists_eq_add_of_lt hn
    refine ⟨[], image.toNat, if_pos (.inr hname), rfl, hle, .inr ?_⟩
    rwa [ofNat_toNat, setWidth_eq]
  | @entry image next size hname hsize hnext hle _ ih =>
    obtain ⟨n, rfl⟩ := Nat.exists_eq_add_of_lt hn
    have hextent : 512 ≤ extent size := Nat.le_add_right _ _
    cases room with
    | zero => exact ⟨[], image.toNat, if_neg (not_or.2 ⟨himage, hname⟩), rfl, by omega, .inl rfl⟩
    | succ room =>
      obtain ⟨hfile, hcomputed⟩ := toNat_next (hnext ▸ hle.trans_lt hlimit)
      obtain ⟨entries, stop, hwalk, htiles, hstop, hend⟩ :=
        ih (ne_zero_of_toNat hnext) (n := (limit - image.toNat) / 512 + n) (by omega) room
      refine ⟨some ⟨image, image + tarBlockSize, size⟩ :: entries, stop, ?_,
        ⟨rfl, hfile, hnext ▸ htiles.le, hnext ▸ htiles⟩, hstop, hend.imp_left (congrArg Nat.succ)⟩
      rw [unpackRamdisk_succ himage hname hsize, eq_of_toNat_eq (hcomputed.trans hnext.symm), hwalk]
      rfl

/-- **The walk.** It goes through the image as it should, whatever room there is, if and only if every
entry ends within the image. -/
theorem ramdisk_walk (memory : Image) {start : BitVec 32} (hstart : start ≠ 0)
    (hlimit : limit < 2 ^ 32) :
    (∀ room, Walks memory start limit room) ↔ Fits memory limit start := by
  constructor
  · intro h
    obtain ⟨entries, stop, hwalk, htiles, hstop, -⟩ := h ((limit - start.toNat) / 512 + 1)
    exact fits_of_unpackRamdisk hstart hlimit le_rfl hwalk htiles hstop
  · exact fun h room => h.walks hstart hlimit (Nat.lt_succ_self _) room

/-- An image at `0x1000` with a file of five bytes, an empty one, and an empty block. -/
def twoFiles : Image := fun address =>
  if address = 0x1000 ∨ address = 0x1400 then 0x61
  else if address = 0x107C then '5'.toUInt8
  else if address = 0x147C then '0'.toUInt8
  else 0

theorem ramdisk_walk_two_files :
    Fits twoFiles 0x1600 0x1000 ∧ ∀ room, Walks twoFiles 0x1000 0x1600 room := by
  have hempty : Fits twoFiles 0x1600 0x1400 := @Fits.entry _ _ _ 0x1600 0 (by decide)
    (by decide +kernel) (by decide) (by decide) (.last (by decide) (by decide))
  have hfits : Fits twoFiles 0x1600 0x1000 := @Fits.entry _ _ _ 0x1400 5 (by decide)
    (by decide +kernel) (by decide) (by decide) hempty
  exact ⟨hfits, (ramdisk_walk _ (by decide) (by decide)).2 hfits⟩

/-- An image of two blocks at `0x1000`: a header, with this size field, and an empty block. -/
def twoBlocks (digits : List Char) : Image := fun address =>
  if address = 0x1000 then 0x61 else ((digits.map Char.toUInt8)[(address - 0x107C).toNat]?).getD 0


/-- The size `0xFFFFFE00` leads from the header to itself, so the walk does not end. -/
theorem not_ramdisk_walk : twoBlocks "37777777000".toList 0x1200 = 0 ∧
    ∀ n, unpackRamdisk (twoBlocks "37777777000".toList) n n 0x1000 = none := by
  have hsize : readFileSize (twoBlocks "37777777000".toList) 0x1000 = some 0xFFFFFE00 := by
    decide +kernel
  refine ⟨by decide, fun n => ?_⟩
  induction n with
  | zero => rfl
  | succ n ih =>
    rw [unpackRamdisk_succ (by decide) (by decide) hsize, show (0x1000 : BitVec 32) + tarBlockSize +
      calculateBlockCount 0xFFFFFE00 * tarBlockSize = 0x1000 by decide, ih]
    rfl

end Dx.User
