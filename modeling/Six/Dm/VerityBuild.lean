import Six.Lib.Bytes
import Six.Lib.HashTree
import Six.Dm.Verity

/-! `build_verity_slice` of `port/image/mkverity.py`.  `layout` says what every block of the result
is, in terms of the data blocks alone. -/

namespace Six.Dm

open Lib List Block

namespace Block

variable {as bs : List UInt8} {total off k s : Nat}

def bytes (b : Block) : List UInt8 := (List.finRange 1024).map b

@[simp] theorem length_bytes (b : Block) : b.bytes.length = 1024 := by simp [bytes]

theorem getD_bytes (b : Block) (h : i < 1024) : b.bytes.getD i 0 = b ⟨i, h⟩ := by
  simp [bytes, getD_eq_getElem?_getD, h]

def ofBytes (bs : List UInt8) (off : Nat) : Block := fun i => bs.getD (off + i) 0

theorem ofBytes_append_left (h : off + 1024 ≤ as.length) :
    ofBytes (as ++ bs) off = ofBytes as off := by
  funext i
  simp only [ofBytes, getD_eq_getElem?_getD]
  rw [getElem?_append_left (by omega)]

theorem ofBytes_append_right (h : as.length ≤ off) :
    ofBytes (as ++ bs) off = ofBytes bs (off - as.length) := by
  funext i
  simp only [ofBytes, getD_eq_getElem?_getD]
  rw [getElem?_append_right (by omega), Nat.sub_add_comm h]

theorem ofBytes_bytes (b : Block) : ofBytes b.bytes 0 = b := by
  funext i
  rw [ofBytes, Nat.zero_add, getD_bytes b i.isLt]

def join (blocks : List Block) : List UInt8 := blocks.flatMap bytes

@[simp] theorem length_join (blocks : List Block) :
    (join blocks).length = blocks.length * 1024 := by
  simp [join, length_flatMap]

theorem join_append (as bs : List Block) : join (as ++ bs) = join as ++ join bs := by
  simp [join]

theorem ofBytes_join (h : k < blocks.length) :
    ofBytes (join blocks) (k * 1024) = blocks[k] := by
  induction blocks generalizing k with
  | nil => simp at h
  | cons b blocks ih =>
    have hcons : join (b :: blocks) = b.bytes ++ join blocks := by simp [join]
    rw [hcons]
    cases k with
    | zero =>
      rw [Nat.zero_mul, ofBytes_append_left (by simp), ofBytes_bytes]
      rfl
    | succ k =>
      have hoff : (k + 1) * 1024 - b.bytes.length = k * 1024 := by
        rw [length_bytes]
        omega
      rw [ofBytes_append_right (by rw [length_bytes]; omega), hoff, ih (by simpa using h)]
      rfl

theorem join_ofBytes (h : bs.length = n * 1024) :
    join ((range n).map fun k => ofBytes bs (k * 1024)) = bs := by
  induction n generalizing bs with
  | zero =>
    obtain rfl : bs = [] := length_eq_zero_iff.mp (by simpa using h)
    rfl
  | succ n ih =>
    have hlen : (bs.drop 1024).length = n * 1024 := by
      rw [length_drop]
      omega
    have hfirst : (ofBytes bs 0).bytes = bs.take 1024 := by
      apply ext_getElem (by simp [h])
      intro i hi hi'
      have hlt : i < bs.length := by
        rw [length_take] at hi'
        omega
      simp [bytes, ofBytes, hlt]
    have hrest : ((range n).map Nat.succ).map (fun k => ofBytes bs (k * 1024)) =
        (range n).map fun k => ofBytes (bs.drop 1024) (k * 1024) := by
      rw [map_map]
      apply map_congr_left
      intro k _
      funext i
      have hoff : k.succ * 1024 + i.val = 1024 + (k * 1024 + i.val) := by omega
      simp only [ofBytes, Function.comp_apply, getD_eq_getElem?_getD, getElem?_drop, hoff]
    rw [range_succ_eq_map, map_cons, Nat.zero_mul, hrest]
    have hcons : ∀ (b : Block) l, join (b :: l) = b.bytes ++ join l := fun b l => by simp [join]
    rw [hcons, hfirst, ih hlen, take_append_drop]

def packSlots (d : Nat → Digest) : Block := fun i => d (i / 32) ⟨i % 32, Nat.mod_lt _ (by decide)⟩

def setSlot (b : Block) (s : Nat) (d : Digest) : Block := fun i =>
  if i.val / 32 = s then d ⟨i % 32, Nat.mod_lt _ (by decide)⟩ else b i

def slots : Packing Block Digest 32 where
  pack := packSlots
  setSlot := setSlot
  pack_congr h := by
    funext i
    exact congrFun (h (i / 32) (by omega)) _
  setSlot_pack d s _ v := by
    funext i
    by_cases hs : i.val / 32 = s
    · simp [setSlot, packSlots, hs]
    · simp [setSlot, packSlots, hs]

theorem packSlots_congr (h : ∀ s < 32, d s = d' s) : packSlots d = packSlots d' :=
  slots.pack_congr h

theorem setSlot_packSlots (d : Nat → Digest) (hs : s < 32) (v : Digest) :
    (packSlots d).setSlot s v = packSlots (Function.update d s v) := slots.setSlot_pack d hs v

theorem slotAt_packSlots (p : VerityParams) (d : Nat → Digest) (h : s < 32) :
    slotAt p (packSlots d) (s * 32) = d s := by
  funext i
  have hlt : s * 32 + i.val < 1024 := by omega
  have hdiv : (s * 32 + i.val) / 32 = s := by omega
  have hmod : (s * 32 + i.val) % 32 = i := by omega
  simp [slotAt, hlt, packSlots, hdiv, hmod]

end Block

def blockSize : Nat := 1024
def l2OffsetBlocks : Nat := 1
def l1OffsetBlocks : Nat := 2
def l0OffsetBlocks : Nat := 17

def salt : Digest :=
  ![83, 73, 88, 95, 68, 77, 95, 86, 69, 82, 73, 84, 89, 95, 83, 72, 65, 50, 53, 54,
  95, 83, 65, 76, 84, 95, 50, 48, 50, 54, 0, 0]

def hashBlock (p : VerityParams) (data : Block) : Digest := p.sha256Salted1k salt data

def padTo (raw : List UInt8) (n : Nat) : List UInt8 :=
  if raw.length < n then raw ++ List.replicate (n - raw.length) 0 else raw.take n

def sbHeader (dataBlocks : Nat) (root : Digest) : List UInt8 :=
  List.ofFn verityMagic ++ (leBytes 4 1 ++ (leBytes 4 1 ++ (leBytes 4 blockSize ++
    (leBytes 4 blockSize ++ (leBytes 4 dataBlocks ++ (leBytes 4 dataBlocks ++
    (leBytes 4 l0OffsetBlocks ++ (leBytes 4 l1OffsetBlocks ++ (leBytes 4 l2OffsetBlocks ++
    ([115, 104, 97, 50, 53, 54] ++ (List.replicate 26 0 ++ (salt.bytes ++ root.bytes))))))))))))

def sbBlock (dataBlocks : Nat) (root : Digest) : Block := Block.ofBytes (sbHeader dataBlocks root) 0

/-- `build_verity_slice`.  It fails when the image has more than 15 full groups of 1024 blocks, for
which there is no level-1 block, and when the slice does not fit in its total size. -/
def buildVeritySlice (p : VerityParams) (raw : List UInt8) (dataBlocks totalBlocks : Nat) :
    Option (List UInt8 × Digest) :=
  let raw := padTo raw (dataBlocks * blockSize)
  let numL0 := dataBlocks / 32
  let numL1 := dataBlocks / 1024
  let l0Blocks := (List.range numL0).map fun l0Idx => Block.packSlots fun slot =>
    hashBlock p (Block.ofBytes raw ((l0Idx * 32 + slot) * blockSize))
  let l1Blocks := (List.range 15).map fun l1Idx =>
    if l1Idx < numL1 then Block.packSlots fun slot =>
      hashBlock p (l0Blocks.getD (l1Idx * 32 + slot) 0)
    else 0
  let l2Block := Block.packSlots fun l1Idx =>
    if l1Idx < numL1 then hashBlock p (l1Blocks.getD l1Idx 0) else 0
  let rootHash := hashBlock p l2Block
  let metaBytes := Block.join ([sbBlock dataBlocks rootHash, l2Block] ++ l1Blocks ++ l0Blocks)
  let totalBytes := totalBlocks * blockSize
  if numL1 > 15 ∨ totalBytes < raw.length + metaBytes.length then none
  else some (raw ++ metaBytes ++
    List.replicate (totalBytes - (raw.length + metaBytes.length)) 0, rootHash)

section Layout

variable (p : VerityParams) (data : Nat → Block) (n : Nat)

def l0Block : Nat → Block := Block.slots.level (hashBlock p) data

/-- The level-1 blocks: only full groups of 1024 data blocks have one. -/
def l1Block (j : Nat) : Block :=
  if j < n / 1024 then Block.slots.level (hashBlock p) (l0Block p data) j else 0

def l2Block : Block := Block.packSlots fun j =>
  if j < n / 1024 then hashBlock p (l1Block p data n j) else 0

def rootHash : Digest := hashBlock p (l2Block p data n)

def layout (k : Nat) : Block :=
  if k < n then data k
  else if k = n then sbBlock n (rootHash p data n)
  else if k = n + 1 then l2Block p data n
  else if k < n + 17 then l1Block p data n (k - (n + 2))
  else if k < n + 17 + n / 32 then l0Block p data (k - (n + 17))
  else 0

variable {n} {k : Nat}

theorem layout_data (hk : k < n) : layout p data n k = data k := if_pos hk

theorem layout_sb : layout p data n n = sbBlock n (rootHash p data n) := by
  rw [layout, if_neg (by omega), if_pos rfl]

theorem layout_l0 (hk : k < n / 32) : layout p data n (n + 17 + k) = l0Block p data k := by
  have hsub : n + 17 + k - (n + 17) = k := by omega
  rw [layout, if_neg (by omega), if_neg (by omega), if_neg (by omega), if_neg (by omega),
    if_pos (by omega), hsub]

theorem layout_l1 (hk : k < 15) : layout p data n (n + 2 + k) = l1Block p data n k := by
  have hsub : n + 2 + k - (n + 2) = k := by omega
  rw [layout, if_neg (by omega), if_neg (by omega), if_neg (by omega), if_pos (by omega), hsub]

theorem layout_l2 : layout p data n (n + 1) = l2Block p data n := by
  rw [layout, if_neg (by omega), if_neg (by omega), if_pos rfl]

end Layout

def dataBlock (raw : List UInt8) (n k : Nat) : Block :=
  Block.ofBytes (padTo raw (n * blockSize)) (k * blockSize)

theorem length_padTo (raw : List UInt8) (n : Nat) : (padTo raw n).length = n := by
  unfold padTo
  split
  · rw [length_append, length_replicate]
    omega
  · rw [length_take]
    omega

theorem bytes_zero : (0 : Block).bytes = replicate 1024 0 := by
  rw [eq_replicate_iff]
  refine ⟨length_bytes 0, fun b hb => ?_⟩
  obtain ⟨i, -, rfl⟩ := mem_map.mp hb
  rfl

theorem replicate_zero_eq_join (n : Nat) :
    replicate (n * 1024) 0 = join (replicate n 0) := by
  induction n with
  | zero => rfl
  | succ n ih =>
    have hcons : join (replicate (n + 1) 0) = (0 : Block).bytes ++ join (replicate n 0) := by
      simp [join, replicate_succ]
    rw [hcons, ← ih, bytes_zero, replicate_append_replicate, Nat.succ_mul, Nat.add_comm]

theorem map_layout (p : VerityParams) (data : Nat → Block) (n rest : Nat) :
    (range (n + (2 + (15 + (n / 32 + rest))))).map (layout p data n) =
      (range n).map data ++ ([sbBlock n (rootHash p data n), l2Block p data n] ++
        ((range 15).map (l1Block p data n) ++
          ((range (n / 32)).map (l0Block p data) ++ replicate rest 0))) := by
  have hdata : (range n).map (layout p data n) = (range n).map data :=
    map_congr_left fun k hk => if_pos (mem_range.mp hk)
  have htop : (range 2).map (fun k => layout p data n (n + k)) =
      [sbBlock n (rootHash p data n), l2Block p data n] := by
    simp [range_succ, layout]
  have hl1 : (range 15).map (fun k => layout p data n (n + (2 + k))) =
      (range 15).map (l1Block p data n) := by
    apply map_congr_left
    intro k hk
    have hlt := mem_range.mp hk
    have hk' : n + (2 + k) - (n + 2) = k := by omega
    rw [layout, if_neg (by omega), if_neg (by omega), if_neg (by omega), if_pos (by omega), hk']
  have hl0 : (range (n / 32)).map (fun k => layout p data n (n + (2 + (15 + k)))) =
      (range (n / 32)).map (l0Block p data) := by
    apply map_congr_left
    intro k hk
    have hlt := mem_range.mp hk
    have hk' : n + (2 + (15 + k)) - (n + 17) = k := by omega
    rw [layout, if_neg (by omega), if_neg (by omega), if_neg (by omega), if_neg (by omega),
      if_pos (by omega), hk']
  have hrest : (range rest).map (fun k => layout p data n (n + (2 + (15 + (n / 32 + k))))) =
      replicate rest 0 := by
    rw [eq_replicate_iff]
    refine ⟨by simp, fun b hb => ?_⟩
    obtain ⟨k, -, rfl⟩ := mem_map.mp hb
    rw [layout, if_neg (by omega), if_neg (by omega), if_neg (by omega), if_neg (by omega),
      if_neg (by omega)]
  simp only [range_add, map_append, map_map, Function.comp_def]
  rw [hdata, htop, hl1, hl0, hrest]

section Slice

variable (p : VerityParams) (raw : List UInt8) (n : Nat)

theorem map_l1Block : ((range 15).map fun l1Idx => if l1Idx < n / 1024 then
      packSlots fun slot => hashBlock p
        (((range (n / 32)).map (l0Block p (dataBlock raw n))).getD (l1Idx * 32 + slot) 0)
      else 0) = (range 15).map (l1Block p (dataBlock raw n) n) := by
  apply map_congr_left
  intro j _
  unfold l1Block
  split
  · change _ = packSlots fun s => hashBlock p (l0Block p (dataBlock raw n) (j * 32 + s))
    refine packSlots_congr fun s hs => ?_
    have hlt : j * 32 + s < n / 32 := by omega
    simp [getD_eq_getElem?_getD, hlt]
  · rfl

theorem packSlots_l1Block (hle : n / 1024 ≤ 15) :
    (packSlots fun l1Idx => if l1Idx < n / 1024 then hashBlock p
      (((range 15).map (l1Block p (dataBlock raw n) n)).getD l1Idx 0) else 0) =
      l2Block p (dataBlock raw n) n := by
  refine packSlots_congr fun s _ => ?_
  by_cases hs : s < n / 1024
  · have hlt : s < 15 := by omega
    simp [hs, getD_eq_getElem?_getD, hlt]
  · simp [hs]

theorem join_layout (hroom : n + 17 + n / 32 ≤ total) :
    join ((range total).map (layout p (dataBlock raw n) n)) =
      padTo raw (n * 1024) ++ join ([sbBlock n (rootHash p (dataBlock raw n) n),
        l2Block p (dataBlock raw n) n] ++ (range 15).map (l1Block p (dataBlock raw n) n) ++
        (range (n / 32)).map (l0Block p (dataBlock raw n))) ++
        replicate ((total - (n + 17 + n / 32)) * 1024) 0 := by
  obtain ⟨rest, rfl⟩ : ∃ rest, total = n + (2 + (15 + (n / 32 + rest))) :=
    ⟨total - (n + 17 + n / 32), by omega⟩
  have hrest : n + (2 + (15 + (n / 32 + rest))) - (n + 17 + n / 32) = rest := by omega
  have hdata : padTo raw (n * 1024) = join ((range n).map (dataBlock raw n)) :=
    (join_ofBytes (length_padTo raw (n * 1024))).symm
  rw [hrest, replicate_zero_eq_join, map_layout, hdata]
  simp only [join_append, append_assoc]

/-- The builder returns the slice with the layout, when there is a level-1 block for every group of
1024 blocks and the slice fits. -/
theorem buildVeritySlice_eq (total : Nat) : buildVeritySlice p raw n total =
    if n / 1024 ≤ 15 ∧ n + 17 + n / 32 ≤ total then
      some (join ((range total).map (layout p (dataBlock raw n) n)),
        rootHash p (dataBlock raw n) n) else none := by
  have hl0 : ((range (n / 32)).map fun l0Idx => packSlots fun slot =>
      hashBlock p (ofBytes (padTo raw (n * blockSize)) ((l0Idx * 32 + slot) * blockSize))) =
      (range (n / 32)).map (l0Block p (dataBlock raw n)) := rfl
  simp only [buildVeritySlice, hl0, map_l1Block]
  by_cases hle : n / 1024 ≤ 15
  · have hmeta : ∀ a b : Block, (join ([a, b] ++
        (range 15).map (l1Block p (dataBlock raw n) n) ++
        (range (n / 32)).map (l0Block p (dataBlock raw n)))).length = (17 + n / 32) * 1024 := by
      intro a b
      rw [length_join]
      simp
      omega
    rw [packSlots_l1Block p raw n hle, length_padTo, hmeta]
    have hbytes : ∀ k, k * blockSize = k * 1024 := fun _ => rfl
    have htotal := hbytes total
    have hn := hbytes n
    by_cases hroom : n + 17 + n / 32 ≤ total
    · have hpad : total * blockSize - (n * blockSize + (17 + n / 32) * 1024) =
          (total - (n + 17 + n / 32)) * 1024 := by omega
      have hfits : ¬(n / 1024 > 15 ∨
          total * blockSize < n * blockSize + (17 + n / 32) * 1024) := by omega
      rw [if_neg hfits, if_pos ⟨hle, hroom⟩, join_layout p raw n hroom, hpad]
      rfl
    · have hfull : total * blockSize < n * blockSize + (17 + n / 32) * 1024 := by omega
      rw [if_pos (.inr hfull), if_neg (fun h => hroom h.2)]
  · rw [if_pos (.inl (Nat.not_le.mp hle)), if_neg (fun h => hle h.1)]

theorem ofBytes_slice (hk : k < total) :
    ofBytes (join ((range total).map (layout p (dataBlock raw n) n))) (k * 1024) =
      layout p (dataBlock raw n) n k := by
  rw [ofBytes_join (by simpa using hk)]
  simp

end Slice

end Six.Dm
