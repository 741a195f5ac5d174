import Six.Base.Errno
import Mathlib.Tactic.Common

/-! The page reads of `fs/erofs/super.c`: `erofs_read_disk_bytes`, `erofs_read_inode_kbuf` and
`erofs_readpage`, with `generic_readpage` and `brw_page` of `fs/buffer.c`.  Statistics and messages
are left out.  A bit of a verified bitmap that a call sets belongs to a block that has just passed
its check, so the bitmaps are taken as they stand before the call. -/

namespace Six.Erofs

open Errno List

abbrev Block := Nat → UInt8

inductive Layout
  | flatPlain
  | flatInline
  | other
  deriving DecidableEq

/-- The mounted image.  `bread` fails on the blocks that cannot be read, `leaf` is the pinned digest
of a block in the range of the metadata tree, and `hash` is `erofs_verity_hash_1k`.  The buffer
cache has blocks of 512 to 4096 bytes; `ll_rw_block` reads none but those of 1024, the size that
`erofs_read_super` sets for the device. -/
structure Super where
  blkszbits : Nat
  bits_ge : 9 ≤ blkszbits
  bits_le : blkszbits ≤ 12
  bread : Nat → Option Block
  sized : blkszbits ≠ 10 → ∀ blk, bread blk = none
  verityEnabled : Bool
  hash : Block → List UInt8
  leaf : Nat → Option (List UInt8)
  metaVerified : Nat → Bool
  dataVerified : Nat → Bool

/-- The inode as `erofs_read_inode` leaves it; `iSize` is the `off_t` as the comparisons see it. -/
structure Inode where
  iSize : Nat
  layout : Layout
  rawBlkaddr : Nat
  inlineOff : Nat

namespace Super

variable (sb : Super) {pos len i : Nat}

def blksz : Nat := 2 ^ sb.blkszbits

def verifyMetaBlock (blk : Nat) (data : Block) : Bool :=
  (sb.leaf blk).all fun digest => sb.metaVerified blk || sb.hash data == digest

def slice (data : Block) (boff chunk : Nat) : List UInt8 :=
  (List.range chunk).map fun i => data (boff + i)

def pieces : Nat → Nat → Nat → List (Nat × Nat)
  | 0, _, _ => []
  | fuel + 1, pos, len =>
    if len = 0 then []
    else
      let chunk := min (sb.blksz - pos % sb.blksz) len
      (pos, chunk) :: pieces fuel ((pos + chunk) % 2 ^ 32) (len - chunk)

def readDiskBytes (diskOff len : Nat) : Option (List UInt8) :=
  ((sb.pieces len diskOff len).mapM fun (off, chunk) =>
    ((sb.bread (off / sb.blksz)).filter fun data =>
      !sb.verityEnabled || sb.verifyMetaBlock (off / sb.blksz) data).map fun data =>
        slice data (off % sb.blksz) chunk).map List.flatten

/-- `i_size >> blkszbits`, an arithmetic shift. -/
def fullBlocks (size : Nat) : Nat :=
  if size < 2 ^ 31 then size / sb.blksz else 2 ^ 32 - (2 ^ 32 - size + sb.blksz - 1) / sb.blksz

end Super

namespace Inode

variable (sb : Super) (inode : Inode)

def direct (lblk : Nat) : Bool := inode.layout = .flatPlain || lblk < sb.fullBlocks inode.iSize

def mapped (pos : Nat) : Bool := inode.direct sb (pos / sb.blksz) || inode.layout = .flatInline

def readPiece (pos chunk : Nat) : Option (List UInt8) :=
  let lblk := pos / sb.blksz
  let boff := pos % sb.blksz
  let phys := (inode.rawBlkaddr + lblk) % 2 ^ 32
  if inode.direct sb lblk then
    if sb.verityEnabled then
      (sb.bread phys).bind fun data =>
        if sb.dataVerified phys ||
            sb.readDiskBytes ((inode.inlineOff + lblk * 32) % 2 ^ 32) 32 == some (sb.hash data) then
          some (Super.slice data boff chunk)
        else none
    else sb.readDiskBytes ((phys * sb.blksz + boff) % 2 ^ 32) chunk
  else sb.readDiskBytes ((inode.inlineOff + boff) % 2 ^ 32) chunk

def readPieces : List (Nat × Nat) → List UInt8 → Except Int (List UInt8)
  | [], kbuf => .ok kbuf
  | (pos, chunk) :: rest, kbuf =>
    if inode.mapped sb pos then
      match inode.readPiece sb pos chunk with
      | some bytes => readPieces rest (kbuf ++ bytes)
      | none => if 0 < kbuf.length then .ok kbuf else .error (-eio)
    else .error (-eio)

def clip (pos len : Nat) : Nat :=
  if (pos + len) % 2 ^ 32 > inode.iSize then inode.iSize - pos else len

def readInodeKbuf (pos len : Nat) : Except Int (List UInt8) :=
  if inode.iSize ≤ pos then .ok []
  else
    let len := inode.clip pos len
    inode.readPieces sb (sb.pieces len pos len) []

def bmap (block : Nat) : Nat :=
  if inode.iSize ≤ block * sb.blksz then 0
  else if inode.direct sb block then (inode.rawBlkaddr + block) % 2 ^ 32 else 0

end Inode

inductive Cached
  | absent
  | stale
  | uptodate
  deriving DecidableEq

/-- A page after its I/O: what `readpage` returned, `PG_uptodate` and `PG_error`, and the bytes that
come from blocks that were read and have passed their checks. -/
structure Page where
  ret : Int
  uptodate : Bool
  error : Bool
  read : Nat → Bool

section

variable (sb : Super) (cache : Nat → Cached) (inode : Inode) (offset : Nat)

/-- The buffer of `brw_page` for a block is up to date.  A buffer that is found in the cache is
copied whether or not its read has succeeded, and block 0 is a hole. -/
def bufferUptodate (block : Nat) : Bool :=
  block == 0 || cache block != .absent || (sb.bread block).isSome

def bufferRead (block : Nat) : Bool :=
  block != 0 && (cache block == .uptodate || (sb.bread block).isSome)

def pageBlock (k : Nat) : Nat := inode.bmap sb (offset / sb.blksz + k)

def genericReadpage : Page :=
  let uptodate := (List.range (4096 / sb.blksz)).all fun k =>
    bufferUptodate sb cache (pageBlock sb inode offset k)
  ⟨0, uptodate, !uptodate, fun i => bufferRead sb cache (pageBlock sb inode offset (i / sb.blksz))⟩

def erofsReadpage : Page :=
  if inode.layout = .flatPlain ∧ sb.verityEnabled = false then
    genericReadpage sb cache inode offset
  else
    match inode.readInodeKbuf sb offset 4096 with
    | .error e => ⟨e, false, false, fun _ => false⟩
    | .ok kbuf => ⟨0, true, false, fun i => i < kbuf.length⟩

/-- A page is marked only when all of it that lies inside the file was read, and an error is
reported otherwise. -/
structure Page.AllOrError (page : Page) (offset size : Nat) : Prop where
  marked : page.uptodate = true → ∀ i < 4096, offset + i < size → page.read i = true
  reported : page.uptodate = false → page.ret < 0 ∨ page.error = true

def firstBad (ps : List (Nat × Nat)) : Option (Nat × Nat) :=
  ps.find? fun p => !(inode.mapped sb p.1 && (inode.readPiece sb p.1 p.2).isSome)

/-- The blocks that fail do not hide: without verity a block of the page that is not in the cache is
unreadable, or none inside the file is block 0 or in the cache, not up to date and unreadable; in
the other cases the first piece that fails is the first of the page, has no known layout or lies
past the end of the file. -/
def Exposed : Prop :=
  if inode.layout = .flatPlain ∧ sb.verityEnabled = false then
    (∃ k < 4096 / sb.blksz, bufferUptodate sb cache (pageBlock sb inode offset k) = false) ∨
      ∀ k < 4096 / sb.blksz, offset + k * sb.blksz < inode.iSize →
        bufferRead sb cache (pageBlock sb inode offset k) = true
  else
    ∀ p, firstBad sb inode (sb.pieces (inode.clip offset 4096) offset (inode.clip offset 4096)) =
      some p → p.1 = offset ∨ inode.mapped sb p.1 = false ∨ inode.iSize ≤ p.1

end

def Follows : Nat → List (Nat × Nat) → Prop
  | _, [] => True
  | pos, (q, chunk) :: rest => q = pos ∧ 0 < chunk ∧ Follows (pos + chunk) rest

section

variable {sb : Super} {inode : Inode} {ps : List (Nat × Nat)} {bytes : List UInt8}

theorem Super.blksz_pos (sb : Super) : 0 < sb.blksz := Nat.two_pow_pos _

theorem sum_pieces (sb : Super) (fuel pos len : Nat) (h : len ≤ fuel) :
    ((sb.pieces fuel pos len).map Prod.snd).sum = len := by
  induction fuel generalizing pos len with
  | zero =>
    obtain rfl : len = 0 := by omega
    rfl
  | succ fuel ih =>
    unfold Super.pieces
    split
    · rename_i hzero
      exact hzero.symm
    · have hmod := Nat.mod_lt pos sb.blksz_pos
      rw [map_cons, sum_cons, ih _ _ (by omega)]
      omega

theorem follows_pieces (sb : Super) (fuel pos len : Nat) (h : pos + len ≤ 2 ^ 32) :
    Follows pos (sb.pieces fuel pos len) := by
  induction fuel generalizing pos len with
  | zero => trivial
  | succ fuel ih =>
    unfold Super.pieces
    split
    · trivial
    · have hmod := Nat.mod_lt pos sb.blksz_pos
      refine ⟨rfl, by omega, ?_⟩
      generalize hchunk : min (sb.blksz - pos % sb.blksz) len = chunk
      by_cases hend : pos + chunk = 2 ^ 32
      · -- nothing is left at the top of the address space
        rw [show len - chunk = 0 by omega]
        cases fuel <;> trivial
      · rw [Nat.mod_eq_of_lt (show pos + chunk < 2 ^ 32 by omega)]
        exact ih _ _ (by omega)

theorem length_slice (data : Block) (boff chunk : Nat) :
    (Super.slice data boff chunk).length = chunk := by
  rw [Super.slice, length_map, length_range]

theorem length_flatten_of_mapM {l : List (List UInt8)}
    (hf : ∀ p bytes, f p = some bytes → bytes.length = p.2) (h : ps.mapM f = some l) :
    l.flatten.length = (ps.map Prod.snd).sum := by
  induction ps generalizing l with
  | nil =>
    cases h
    rfl
  | cons p ps ih =>
    rw [mapM_cons] at h
    obtain ⟨bytes, hbytes, h⟩ := Option.bind_eq_some_iff.mp h
    obtain ⟨rest, hrest, h⟩ := Option.bind_eq_some_iff.mp h
    cases h
    rw [flatten_cons, length_append, hf p bytes hbytes, ih hrest, map_cons, sum_cons]

theorem length_readDiskBytes {off : Nat} (h : sb.readDiskBytes off len = some bytes) :
    bytes.length = len := by
  obtain ⟨l, hl, rfl⟩ := Option.map_eq_some_iff.mp h
  rw [length_flatten_of_mapM ?_ hl, sum_pieces _ _ _ _ (Nat.le_refl len)]
  rintro ⟨off, chunk⟩ bytes hbytes
  obtain ⟨data, -, rfl⟩ := Option.map_eq_some_iff.mp hbytes
  exact length_slice ..

theorem length_readPiece (h : inode.readPiece sb pos chunk = some bytes) :
    bytes.length = chunk := by
  unfold Inode.readPiece at h
  dsimp only at h
  split at h
  · split at h
    · obtain ⟨data, -, h⟩ := Option.bind_eq_some_iff.mp h
      split at h
      · cases h
        exact length_slice ..
      · cases h
    · exact length_readDiskBytes h
  · exact length_readDiskBytes h

theorem readPieces_spec (kbuf : List UInt8) (h : Follows pos ps) :
    (firstBad sb inode ps = none ∧ ∃ kbuf', inode.readPieces sb ps kbuf = .ok kbuf' ∧
      kbuf'.length = kbuf.length + (ps.map Prod.snd).sum) ∨
    ∃ p, firstBad sb inode ps = some p ∧ pos ≤ p.1 ∧
      ((inode.mapped sb p.1 = false ∨ kbuf = [] ∧ p.1 = pos) ∧
          inode.readPieces sb ps kbuf = .error (-eio) ∨
        inode.mapped sb p.1 = true ∧ (kbuf ≠ [] ∨ pos < p.1) ∧
          ∃ kbuf', inode.readPieces sb ps kbuf = .ok kbuf' ∧
            kbuf'.length = kbuf.length + (p.1 - pos)) := by
  induction ps generalizing pos kbuf with
  | nil => exact .inl ⟨rfl, kbuf, rfl, rfl⟩
  | cons p rest ih =>
    obtain ⟨q, chunk⟩ := p
    obtain ⟨rfl, hchunk, hrest⟩ := h
    unfold Inode.readPieces firstBad
    cases hmapped : inode.mapped sb q with
    | false =>
      right
      exact ⟨(q, chunk), by simp [hmapped], Nat.le_refl q, .inl ⟨.inl hmapped, by simp⟩⟩
    | true =>
      cases hpiece : inode.readPiece sb q chunk with
      | none =>
        right
        refine ⟨(q, chunk), by simp [hmapped, hpiece], Nat.le_refl q, ?_⟩
        cases kbuf with
        | nil => exact .inl ⟨.inr ⟨rfl, rfl⟩, by simp⟩
        | cons b kbuf => exact .inr ⟨hmapped, .inl (by simp), _, by simp; rfl, by simp⟩
      | some bytes =>
        have hlength := length_readPiece hpiece
        have hfind : ((q, chunk) :: rest).find? (fun p =>
            !(inode.mapped sb p.1 && (inode.readPiece sb p.1 p.2).isSome)) =
            firstBad sb inode rest := by
          simp [firstBad, hmapped, hpiece]
        rw [hfind]
        simp only [if_true]
        rcases ih (kbuf ++ bytes) hrest with ⟨hnone, kbuf', hok, hlen⟩ | ⟨p, hsome, hle, hends⟩
        · left
          refine ⟨hnone, kbuf', hok, ?_⟩
          rw [hlen, length_append, hlength, map_cons, sum_cons]
          omega
        · right
          have hne : kbuf ++ bytes ≠ [] := by
            intro hnil
            rw [append_eq_nil_iff] at hnil
            rw [hnil.2, length_nil] at hlength
            omega
          refine ⟨p, hsome, by omega, ?_⟩
          rcases hends with ⟨hbad | ⟨hnil, -⟩, herror⟩ | ⟨hok, -, kbuf', hread, hlen⟩
          · exact .inl ⟨.inl hbad, herror⟩
          · exact absurd hnil hne
          · refine .inr ⟨hok, .inr (by omega), kbuf', hread, ?_⟩
            rw [hlen, length_append, hlength]
            omega

theorem Inode.clip_le (inode : Inode) (pos len : Nat) : inode.clip pos len ≤ len := by
  unfold clip
  split
  · have := Nat.mod_le (pos + len) (2 ^ 32)
    omega
  · exact Nat.le_refl len

theorem le_clip (hi : i < len) (h : pos + i < inode.iSize) : i < inode.clip pos len := by
  unfold Inode.clip
  split <;> omega

theorem div_lt_of_lt_page (h : i < 4096) : i / sb.blksz < 4096 / sb.blksz := by
  have hdvd : sb.blksz ∣ 4096 := Nat.pow_dvd_pow 2 sb.bits_le
  rw [Nat.div_lt_iff_lt_mul sb.blksz_pos, Nat.div_mul_cancel hdvd]
  exact h

variable {cache : Nat → Cached} {offset : Nat}

theorem genericReadpage_iff :
    (genericReadpage sb cache inode offset).AllOrError offset inode.iSize ↔
    (∃ k < 4096 / sb.blksz, bufferUptodate sb cache (pageBlock sb inode offset k) = false) ∨
      ∀ k < 4096 / sb.blksz, offset + k * sb.blksz < inode.iSize →
        bufferRead sb cache (pageBlock sb inode offset k) = true := by
  have hpos := sb.blksz_pos
  by_cases hall : ∃ k < 4096 / sb.blksz,
      bufferUptodate sb cache (pageBlock sb inode offset k) = false
  · have hup : (genericReadpage sb cache inode offset).uptodate = false := by
      obtain ⟨k, hk, hbad⟩ := hall
      exact all_eq_false.mpr ⟨k, mem_range.mpr hk, by rw [hbad]; exact Bool.false_ne_true⟩
    refine iff_of_true ⟨fun h => ?_, fun h => .inr ?_⟩ (.inl hall)
    · rw [hup] at h
      cases h
    · show (!(genericReadpage sb cache inode offset).uptodate) = true
      rw [hup]
      rfl
  · have hup : (genericReadpage sb cache inode offset).uptodate = true := by
      refine all_eq_true.mpr fun k hk => ?_
      by_contra hbad
      exact hall ⟨k, mem_range.mp hk, Bool.not_eq_true _ ▸ hbad⟩
    constructor
    · intro h
      right
      intro k hk hin
      have hread := h.marked hup (k * sb.blksz) ?_ hin
      · rw [← Nat.mul_div_cancel k hpos]
        exact hread
      · have := Nat.div_mul_le_self 4096 sb.blksz
        have := Nat.mul_lt_mul_of_pos_right hk hpos
        omega
    · rintro (hbad | hread)
      · exact absurd hbad hall
      · refine ⟨fun _ i hi hin => hread _ (div_lt_of_lt_page hi) ?_, fun h => ?_⟩
        · have := Nat.div_mul_le_self i sb.blksz
          omega
        · rw [hup] at h
          cases h

theorem Follows.mem_bounds (h : Follows pos ps) (hp : p ∈ ps) :
    pos ≤ p.1 ∧ p.1 < pos + (ps.map Prod.snd).sum := by
  induction ps generalizing pos with
  | nil => cases hp
  | cons q rest ih =>
    obtain ⟨rfl, hchunk, hrest⟩ := h
    rw [map_cons, sum_cons]
    rcases mem_cons.mp hp with rfl | hp
    · omega
    · have := ih hrest hp
      omega

theorem kbuf_all_or_error_iff (hlen : ∀ i < 4096, offset + i < inode.iSize → i < len)
    (hle : len ≤ 4096) (hpage : offset + len ≤ 2 ^ 32) :
    (match inode.readPieces sb (sb.pieces len offset len) [] with
      | .error e => Page.mk e false false fun _ => false
      | .ok kbuf => ⟨0, true, false, fun i => i < kbuf.length⟩).AllOrError offset inode.iSize ↔
      ∀ p, firstBad sb inode (sb.pieces len offset len) = some p →
        p.1 = offset ∨ inode.mapped sb p.1 = false ∨ inode.iSize ≤ p.1 := by
  have hmarked : ∀ kbuf : List UInt8,
      (Page.mk 0 true false fun i => i < kbuf.length).AllOrError offset inode.iSize ↔
        ∀ i < 4096, offset + i < inode.iSize → i < kbuf.length := fun kbuf =>
    ⟨fun h i hi hin => of_decide_eq_true (h.marked rfl i hi hin),
      fun h => ⟨fun _ i hi hin => decide_eq_true (h i hi hin), fun h => by cases h⟩⟩
  have hfailed : (Page.mk (-eio) false false fun _ => false).AllOrError offset inode.iSize :=
    ⟨fun h => (by cases h), fun _ => .inl (by decide)⟩
  have hsum := sum_pieces sb len offset len (Nat.le_refl len)
  have hfollows := follows_pieces sb len offset len hpage
  rcases readPieces_spec [] hfollows with
    ⟨hnone, kbuf, hok, hlength⟩ | ⟨p, hsome, -, hends⟩
  · rw [hok, hnone]
    refine iff_of_true ((hmarked kbuf).mpr fun i hi hin => ?_) fun p hp => by cases hp
    rw [hlength, hsum, length_nil, Nat.zero_add]
    exact hlen i hi hin
  · have honly : (∀ p', firstBad sb inode (sb.pieces len offset len) = some p' →
        p'.1 = offset ∨ inode.mapped sb p'.1 = false ∨ inode.iSize ≤ p'.1) ↔
        (p.1 = offset ∨ inode.mapped sb p.1 = false ∨ inode.iSize ≤ p.1) := by
      rw [hsome]
      exact ⟨fun h => h p rfl, fun h p' hp' => by cases hp'; exact h⟩
    rw [honly]
    rcases hends with ⟨hbad, herror⟩ | ⟨hmapped, hne | hlt, kbuf, hok, hlength⟩
    · rw [herror]
      refine iff_of_true hfailed ?_
      rcases hbad with hbad | ⟨-, hfirst⟩
      · exact .inr (.inl hbad)
      · exact .inl hfirst
    · exact absurd rfl hne
    · rw [hok, hmarked, hlength, length_nil, Nat.zero_add, hmapped]
      constructor
      · intro h
        -- the piece that failed begins inside the page, and its first byte was not read
        have hbounds := hfollows.mem_bounds (mem_of_find?_eq_some hsome)
        rw [hsum] at hbounds
        by_contra hnot
        have := h (p.1 - offset) (by omega) (by omega)
        omega
      · rintro (hfirst | hbad | hpast) i hi hin
        · omega
        · cases hbad
        · omega

theorem readpage_iff (hpage : offset + 4096 ≤ 2 ^ 32) :
    (erofsReadpage sb cache inode offset).AllOrError offset inode.iSize ↔
      Exposed sb cache inode offset := by
  unfold erofsReadpage Exposed
  split
  · exact genericReadpage_iff
  · unfold Inode.readInodeKbuf
    have hle := inode.clip_le offset 4096
    have hlen : ∀ i < 4096, offset + i < inode.iSize → i < inode.clip offset 4096 :=
      fun i hi hin => le_clip hi hin
    generalize inode.clip offset 4096 = len at hle hlen
    by_cases hend : inode.iSize ≤ offset
    · rw [if_pos hend]
      refine iff_of_true ⟨fun _ i _ hin => by omega, fun h => by cases h⟩ fun p hp => .inr (.inr ?_)
      have hfollows := follows_pieces sb len offset len (by omega)
      have := hfollows.mem_bounds (mem_of_find?_eq_some hp)
      omega
    · rw [if_neg hend]
      exact kbuf_all_or_error_iff hlen hle (by omega)

end

/-- A page read is all or error exactly when the blocks that fail do not hide behind others. -/
theorem readpage_all_or_error_iff (sb : Super) (cache : Nat → Cached) (inode : Inode)
    (page : Fin (2 ^ 20)) :
    (erofsReadpage sb cache inode (4096 * page)).AllOrError (4096 * page) inode.iSize ↔
      Exposed sb cache inode (4096 * page) :=
  readpage_iff (by omega)

/-- An image with verity whose block 6 is unreadable, and a file in the blocks 5 and 6. -/
def brokenImage : Super where
  blkszbits := 10
  bits_ge := by decide
  bits_le := by decide
  bread blk := if blk = 6 then none else some fun _ => 0
  sized h := absurd rfl h
  verityEnabled := true
  hash _ := []
  leaf _ := none
  metaVerified _ := true
  dataVerified _ := true

def brokenFile : Inode := ⟨2048, .flatPlain, 5, 0⟩

set_option maxRecDepth 8000 in
/-- The second half of the page is not read, and the page is marked up to date. -/
theorem broken_page_marked :
    (erofsReadpage brokenImage (fun _ => .absent) brokenFile 0).uptodate = true ∧
      (erofsReadpage brokenImage (fun _ => .absent) brokenFile 0).ret = 0 ∧
      (erofsReadpage brokenImage (fun _ => .absent) brokenFile 0).read 1024 = false ∧
      ¬ (erofsReadpage brokenImage (fun _ => .absent) brokenFile 0).AllOrError 0 2048 := by
  have hup : (erofsReadpage brokenImage (fun _ => .absent) brokenFile 0).uptodate = true := by
    decide
  have hread : (erofsReadpage brokenImage (fun _ => .absent) brokenFile 0).read 1024 = false := by
    decide
  refine ⟨hup, by decide, hread, fun h => ?_⟩
  have := h.marked hup 1024 (by decide) (by decide)
  rw [hread] at this
  cases this

end Six.Erofs
