import Six.Erofs.Readpage
import Mathlib.Data.List.DropRight

/-! The directories of `fs/erofs/super.c`: `erofs_readdir`, which ends at the first bad block, and
`erofs_lookup`, which goes on with the next. -/

namespace Six.Erofs

open List Option

structure Entry where
  name : List UInt8
  nid : Nat
  deriving DecidableEq

section

variable (blk : List UInt8)

def le16 (i : Nat) : Nat :=
  (blk.getD i 0).toNat + 256 * (blk.getD (i + 1) 0).toNat

/-- The low half of a 64-bit field, which is what `(unsigned long)` keeps. -/
def le32 (i : Nat) : Nat := le16 blk i + 65536 * le16 blk (i + 2)

def entryAt (nrEntries idx : Nat) : Option Entry :=
  let nameoff := le16 blk (idx * 12 + 8)
  let nextoff := if idx + 1 < nrEntries then le16 blk ((idx + 1) * 12 + 8) else blk.length
  if blk.length ≤ nameoff ∨ blk.length < nextoff ∨ nextoff < nameoff then none
  else
    let name := (blk.drop nameoff).take (nextoff - nameoff)
    some ⟨name.rdropWhile (· = 0), le32 blk (idx * 12)⟩

def dirents : Option (List (Option Entry)) :=
  let nameoff := le16 blk 8
  if blk.length < 12 ∨ nameoff < 12 ∨ blk.length < nameoff then none
  else some ((List.range (nameoff / 12)).map (entryAt blk (nameoff / 12)))

end

/-- A directory of an image.  `opens` says of an inode number that `iget` gives an inode for it and
that its header can be read again when the inode was in use. -/
structure Dir where
  sb : Super
  inode : Inode
  size_lt : inode.iSize < 2 ^ 32
  ino : Nat
  opens : Nat → Bool

namespace Dir

variable (d : Dir) {name : List UInt8}

/-- `erofs_read_dir_block`; an error is a block without bytes.  A rest of 2^31 bytes and more is a
negative `int`. -/
def readDirBlock (lblk : Nat) : List UInt8 :=
  let off := lblk * d.sb.blksz % 2 ^ 32
  let rem := d.inode.iSize - off
  if d.inode.iSize ≤ off ∨ 2 ^ 31 ≤ rem then []
  else
    match d.inode.readInodeKbuf d.sb off (min rem d.sb.blksz) with
    | .ok kbuf => kbuf
    | .error _ => []

def block (lblk : Nat) : Option (List (Option Entry)) := dirents (d.readDirBlock lblk)

def shown (idx : Nat) (es : List (Option Entry)) : List Entry :=
  (es.drop idx).reduceOption.filter fun e => e.name ≠ [] ∧ e.nid ≠ 0

/-- The loop of `erofs_readdir` from the position `pos`, with a `filldir` that takes every entry;
`none` when the rounds do not suffice. -/
def readdir : Nat → Nat → Option (List Entry)
  | 0, _ => none
  | rounds + 1, pos =>
    let lblk := pos / d.sb.blksz
    if d.inode.iSize ≤ lblk * d.sb.blksz then some []
    else
      match d.block lblk with
      | none => some []
      | some es => (readdir rounds ((lblk + 1) * d.sb.blksz % 2 ^ 32)).map
          (shown (pos % d.sb.blksz) es ++ ·)

def totalBlocks : Nat := (d.inode.iSize + d.sb.blksz - 1) % 2 ^ 32 / d.sb.blksz

def blocks : List (Option (List (Option Entry))) := (List.range d.totalBlocks).map d.block

def entries : List Entry := d.blocks.flatMap fun b => (b.getD []).reduceOption

def lookup (name : List UInt8) : Option Nat :=
  if name = [] ∨ name = [46] then some d.ino
  else
    match d.entries.find? (·.name = name) with
    | some e => if d.opens e.nid then some e.nid else none
    | none => none

def early : List Entry :=
  (d.blocks.takeWhile Option.isSome).flatMap fun b => (b.getD []).reduceOption

def listing (bs : List (Option (List (Option Entry)))) : List Entry :=
  (bs.takeWhile Option.isSome).flatMap fun b => shown 0 (b.getD [])

theorem block_zero (h : 2 ^ 31 ≤ d.inode.iSize) : d.block 0 = none := by
  have hread : d.readDirBlock 0 = [] := by
    exact if_pos (.inr (by simpa using h))
  rw [block, hread]
  rfl

theorem lt_totalBlocks_iff (h : d.inode.iSize + d.sb.blksz ≤ 2 ^ 32) (k : Nat) :
    k < d.totalBlocks ↔ k * d.sb.blksz < d.inode.iSize := by
  have hpos := d.sb.blksz_pos
  rw [totalBlocks, Nat.mod_eq_of_lt (by omega), Nat.lt_iff_add_one_le,
    Nat.le_div_iff_mul_le hpos, Nat.add_mul]
  omega

theorem readdir_from (h : d.inode.iSize + d.sb.blksz ≤ 2 ^ 32) (n k : Nat)
    (hn : k + n = d.totalBlocks) :
    d.readdir (n + 1) (k * d.sb.blksz) = some (listing ((range' k n).map d.block)) := by
  have hpos := d.sb.blksz_pos
  have hdiv : k * d.sb.blksz / d.sb.blksz = k := Nat.mul_div_cancel _ hpos
  have hmod : k * d.sb.blksz % d.sb.blksz = 0 := Nat.mul_mod_left ..
  have hlt := d.lt_totalBlocks_iff h k
  induction n generalizing k with
  | zero => rw [readdir, hdiv, if_pos (by omega)]; rfl
  | succ n ih =>
    have hnext : (k + 1) * d.sb.blksz < 2 ^ 32 := by rw [Nat.add_mul]; omega
    rw [readdir, hdiv, if_neg (by omega), hmod, Nat.mod_eq_of_lt hnext, range'_succ, map_cons]
    cases hblock : d.block k with
    | none => rfl
    | some es =>
      rw [ih (k + 1) (by omega) (Nat.mul_div_cancel _ hpos) (Nat.mul_mod_left ..)
        (d.lt_totalBlocks_iff h _)]
      rfl

theorem exists_readdir : ∃ rounds, d.readdir rounds 0 = some (listing d.blocks) := by
  by_cases h : d.inode.iSize + d.sb.blksz ≤ 2 ^ 32
  · refine ⟨d.totalBlocks + 1, ?_⟩
    have hfrom := d.readdir_from h d.totalBlocks 0 (by omega)
    rwa [Nat.zero_mul, ← range_eq_range'] at hfrom
  · -- the number of blocks wraps to 0, and the listing stops at the first block
    have hle : d.sb.blksz ≤ 2 ^ 12 := Nat.pow_le_pow_right (by decide) d.sb.bits_le
    have hsize := d.size_lt
    have htotal : d.totalBlocks = 0 := by
      rw [totalBlocks, show d.inode.iSize + d.sb.blksz - 1 =
        (d.inode.iSize + d.sb.blksz - 1 - 2 ^ 32) + 2 ^ 32 by omega, Nat.add_mod_right,
        Nat.mod_eq_of_lt (by omega)]
      exact Nat.div_eq_of_lt (by omega)
    refine ⟨1, ?_⟩
    rw [blocks, htotal, readdir, Nat.zero_div, if_neg (by omega), d.block_zero (by omega)]
    rfl

theorem readdir_unique (hm : d.readdir m pos = some es)
    (hn : d.readdir n pos = some fs) : es = fs := by
  induction m generalizing n pos es fs with
  | zero => cases hm
  | succ m ih =>
    cases n with
    | zero => cases hn
    | succ n =>
      rw [readdir] at hm hn
      split at hm
      · rw [if_pos ‹_›] at hn
        exact some.inj (hm.symm.trans hn)
      · rw [if_neg ‹_›] at hn
        cases hblock : d.block (pos / d.sb.blksz) with
        | none =>
          rw [hblock] at hm hn
          exact some.inj (hm.symm.trans hn)
        | some l =>
          rw [hblock] at hm hn
          obtain ⟨rest, hrest, rfl⟩ := map_eq_some_iff.mp hm
          obtain ⟨rest', hrest', rfl⟩ := map_eq_some_iff.mp hn
          rw [ih hrest hrest']

theorem mem_listing : e ∈ listing d.blocks ↔ e ∈ d.early ∧ e.name ≠ [] ∧ e.nid ≠ 0 := by
  simp only [listing, early, shown, mem_flatMap, mem_filter, drop_zero, decide_eq_true_eq]
  exact ⟨fun ⟨b, hb, he, hok⟩ => ⟨⟨b, hb, he⟩, hok⟩, fun ⟨⟨b, hb, he⟩, hok⟩ => ⟨b, hb, he, hok⟩⟩

theorem mem_entries_of_early (h : e ∈ d.early) : e ∈ d.entries := by
  obtain ⟨b, hb, he⟩ := mem_flatMap.mp h
  exact mem_flatMap.mpr ⟨b, (takeWhile_sublist _).subset hb, he⟩

/-- The listing from position 0 ends, and it has the names that a lookup resolves, with their
numbers. -/
def Agrees : Prop :=
  ∃ rounds es, d.readdir rounds 0 = some es ∧
    ∀ name ≠ [], ∀ ino, ⟨name, ino⟩ ∈ es ↔ d.lookup name = some ino

/-- The first entry of a name, if its inode opens, stands before the first bad block and has a
number; the other entries there with a number have the same one.  The directory has itself under
`.`. -/
structure Orderly : Prop where
  found : ∀ name ≠ [], name ≠ [46] → ∀ e, d.entries.find? (·.name = name) = some e →
    d.opens e.nid = true → e ∈ d.early ∧ e.nid ≠ 0
  same : ∀ e ∈ d.early, e.name ≠ [] → e.name ≠ [46] → e.nid ≠ 0 →
    ∀ f, d.entries.find? (·.name = e.name) = some f → f.nid = e.nid ∧ d.opens e.nid = true
  dot : ⟨[46], d.ino⟩ ∈ d.early ∧ d.ino ≠ 0
  dots : ∀ e ∈ d.early, e.name = [46] → e.nid ≠ 0 → e.nid = d.ino

theorem lookup_dot : d.lookup [46] = some d.ino := if_pos (.inr rfl)

theorem lookup_eq_some_iff (h : name ≠ []) (hdot : name ≠ [46]) {ino : Nat} :
    d.lookup name = some ino ↔ ∃ e, d.entries.find? (·.name = name) = some e ∧
      d.opens e.nid = true ∧ e.nid = ino := by
  rw [lookup, if_neg (by simp [h, hdot])]
  cases d.entries.find? (·.name = name) with
  | none => simp
  | some e =>
    split <;> simp_all

theorem orderly_of_listing
    (h : ∀ name ≠ [], ∀ ino, ⟨name, ino⟩ ∈ listing d.blocks ↔ d.lookup name = some ino) :
    d.Orderly where
  found name hname hdot e he hopens := by
    have hmem :=
      (h name hname e.nid).mpr ((d.lookup_eq_some_iff hname hdot).mpr ⟨e, he, hopens, rfl⟩)
    obtain rfl : e.name = name := by simpa using find?_some he
    exact ⟨(d.mem_listing.mp hmem).1, (d.mem_listing.mp hmem).2.2⟩
  same e he hname hdot hnid f hf := by
    have hlook := (h e.name hname e.nid).mp (d.mem_listing.mpr ⟨he, hname, hnid⟩)
    obtain ⟨f', hf', hopens, heq⟩ := (d.lookup_eq_some_iff hname hdot).mp hlook
    obtain rfl := some.inj (hf'.symm.trans hf)
    exact ⟨heq, heq ▸ hopens⟩
  dot := by
    have hmem := d.mem_listing.mp ((h [46] (by decide) d.ino).mpr d.lookup_dot)
    exact ⟨hmem.1, hmem.2.2⟩
  dots e he hname hnid := by
    have hlook := (h e.name (by simp [hname]) e.nid).mp
      (d.mem_listing.mpr ⟨he, by simp [hname], hnid⟩)
    rw [hname, d.lookup_dot] at hlook
    exact (some.inj hlook).symm

theorem listing_of_orderly (h : d.Orderly) (hname : name ≠ []) (ino : Nat) :
    ⟨name, ino⟩ ∈ listing d.blocks ↔ d.lookup name = some ino := by
  rw [d.mem_listing]
  by_cases hdot : name = [46]
  · subst hdot
    rw [d.lookup_dot, some.injEq]
    constructor
    · exact fun ⟨he, _, hnid⟩ => (h.dots _ he rfl hnid).symm
    · rintro rfl
      exact ⟨h.dot.1, hname, h.dot.2⟩
  · rw [d.lookup_eq_some_iff hname hdot]
    constructor
    · rintro ⟨he, -, hnid⟩
      cases hfind : d.entries.find? (·.name = name) with
      | none =>
        have := find?_eq_none.mp hfind _ (d.mem_entries_of_early he)
        simp at this
      | some f =>
        obtain ⟨heq, hopens⟩ := h.same _ he hname hdot hnid f hfind
        exact ⟨f, rfl, heq ▸ hopens, heq⟩
    · rintro ⟨e, he, hopens, rfl⟩
      obtain rfl : e.name = name := by simpa using find?_some he
      obtain ⟨hearly, hnid⟩ := h.found _ hname hdot e he hopens
      exact ⟨hearly, hname, hnid⟩

/-- A listing and the lookups of a directory agree exactly when it is orderly. -/
theorem readdir_agrees_iff : d.Agrees ↔ d.Orderly := by
  obtain ⟨rounds, hrounds⟩ := d.exists_readdir
  constructor
  · rintro ⟨more, es, hes, h⟩
    obtain rfl := d.readdir_unique hes hrounds
    exact d.orderly_of_listing h
  · exact fun h => ⟨rounds, _, hrounds, fun name hname ino => d.listing_of_orderly h hname ino⟩

end Dir

/-- Two blocks of a directory: 1024 zeros, and one entry `a` with the number 5. -/
def skewedDir : Dir where
  sb :=
    { brokenImage with
      bread := fun blk => some fun i =>
        if blk = 1 then 0 else ([5, 0, 0, 0, 0, 0, 0, 0, 12, 0, 1, 0, 97] : List UInt8).getD i 0
      sized := fun h => absurd rfl h
      verityEnabled := false }
  inode := { iSize := 1037, layout := .flatPlain, rawBlkaddr := 1, inlineOff := 0 }
  size_lt := by decide
  ino := 36
  opens := fun _ => true

set_option maxRecDepth 8000 in
/-- The lookup of `a` passes over the first block, and the listing ends there. -/
theorem skewed_not_listed : skewedDir.readdir 1 0 = some [] ∧ skewedDir.lookup [97] = some 5 ∧
    ¬ skewedDir.Agrees := by
  have hempty : skewedDir.readdir 1 0 = some [] := by decide
  have hfound : skewedDir.lookup [97] = some 5 := by decide
  refine ⟨hempty, hfound, fun ⟨rounds, es, hes, h⟩ => ?_⟩
  obtain rfl := skewedDir.readdir_unique hes hempty
  cases (h [97] (by decide) 5).mpr hfound

end Six.Erofs
