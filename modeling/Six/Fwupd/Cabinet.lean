import Six.Lib.File
import Six.Lib.Run

/-! Random access to the folder of a cabinet in `fwupdmgr.c`.  `cab_load_block` keeps one decoded
block and the dictionary for it, and goes on from there or starts again at the first block.  The
decompressor is a parameter: what it writes, and whether it succeeds. -/

namespace Six.Fwupd

open Lib List

/-- `struct cab_cfdata_map`; `uncomp_off` is `Cabinet.uncompOff`. -/
structure CabBlock where
  fileDataOff : UInt32
  cbData : UInt16
  cbUncomp : UInt16

structure Cabinet where
  typeCompress : UInt16
  blocks : List CabBlock
  file : File
  inflate : List UInt8 → Nat → List UInt8 → List UInt8 × Bool

/-- The cache.  `cur` and `prev` are what has been written to `cab_uncomp_cur` and
`cab_uncomp_prev`. -/
structure CabCache where
  cur : List UInt8 := []
  prev : List UInt8 := []
  blockIdx : Option Nat := none
  fileOff : UInt32 := 0
  curLen : Nat := 0
  prevLen : Nat := 0

def put (w buf : List UInt8) : List UInt8 := w ++ buf.drop w.length

theorem take_put (w buf : List UInt8) : (put w buf).take w.length = w := by
  simp [put]

namespace Cabinet

variable (c : Cabinet)

def compType : Nat := (c.typeCompress &&& 0xf).toNat

def readable (b : CabBlock) : Bool :=
  b.fileDataOff.toNat < 2 ^ 31 &&
    c.file.count b.fileDataOff.toNat b.cbData.toNat = b.cbData.toNat

def raw (b : CabBlock) : List UInt8 :=
  if b.fileDataOff.toNat < 2 ^ 31 then
    c.file.bytes b.fileDataOff.toNat (c.file.count b.fileDataOff.toNat b.cbData.toNat)
  else []

variable (s : CabCache)

def loadStored (k : Nat) (b : CabBlock) : CabCache × Bool :=
  let read := { s with cur := put (c.raw b) s.cur }
  if b.cbData.toNat > 32768 then (s, false)
  else if c.readable b then
    ({ read with blockIdx := some k, fileOff := b.fileDataOff, curLen := b.cbData.toNat }, true)
  else (read, false)

def keepPrev (k : Nat) : CabCache :=
  if 0 < k ∧ 0 < s.curLen then
    { s with prev := put (s.cur.take s.curLen) s.prev, prevLen := s.curLen }
  else s

def inflateStep (k : Nat) (b : CabBlock) : CabCache × Bool :=
  let kept := keepPrev s k
  let out := c.inflate (c.raw b) b.cbUncomp.toNat (kept.prev.take kept.prevLen)
  let written := { kept with cur := put out.1 kept.cur }
  if b.cbData.toNat > 36864 ∨ b.cbUncomp.toNat > 32768 then (s, false)
  else if !c.readable b then (kept, false)
  else if out.2 then
    ({ written with blockIdx := some k, fileOff := b.fileDataOff, curLen := out.1.length }, true)
  else (written, false)

/-- The loop of `cab_load_block` over `n` blocks from block `k` on. -/
def inflateFrom (s : CabCache) (k : Nat) : Nat → CabCache × Bool
  | 0 => (s, true)
  | n + 1 =>
    match c.blocks[k]?.map (c.inflateStep s k) with
    | some (next, true) => inflateFrom next (k + 1) n
    | some (next, false) => (next, false)
    | none => (s, false)

/-- The block in the cache, if it is one before block `i` of this cabinet. -/
def cachedBefore (i : Nat) : Option Nat :=
  s.blockIdx.filter fun j => j < i ∧ (c.blocks[j]?.map (·.fileDataOff)) = some s.fileOff

/-- The result is the length of the block, or `none` for -1. -/
def loadBlock (i : Nat) : CabCache × Option Nat :=
  match c.blocks[i]? with
  | none => (s, none)
  | some b =>
    if s.blockIdx = some i ∧ s.fileOff = b.fileDataOff then (s, some s.curLen)
    else
      let (next, ok) :=
        if c.compType = 0 then c.loadStored s i b
        else if c.compType = 1 then
          match c.cachedBefore s i with
          | some j => c.inflateFrom s (j + 1) (i - j)
          | none => c.inflateFrom { s with prevLen := 0 } 0 (i + 1)
        else (s, false)
      (next, if ok then some next.curLen else none)

def uncompLen (i : Nat) : Nat := c.blocks[i]?.elim 0 (·.cbUncomp.toNat)

def uncompOff : Nat → Nat
  | 0 => 0
  | i + 1 => uncompOff i + c.uncompLen i

def findBlock (off : Nat) : Option Nat :=
  (List.range c.blocks.length).find? fun i =>
    c.uncompOff i ≤ off && off < c.uncompOff i + c.uncompLen i

/-- The loop with `len` bytes to go, of which every turn takes one at least. -/
def readLoop : Nat → CabCache → Nat → Nat → CabCache × Option (List UInt8)
  | 0, s, _, _ => (s, some [])
  | fuel + 1, s, off, len =>
    match if len = 0 then none else c.findBlock off with
    | none => (s, some [])
    | some i =>
      let rel := off - c.uncompOff i
      let n := min len (c.uncompLen i - rel)
      let (next, loaded) := c.loadBlock s i
      if loaded.any (rel + n ≤ ·) then
        let (last, rest) := readLoop fuel next (off + n) (len - n)
        (last, rest.map ((next.cur.drop rel).take n ++ ·))
      else (next, none)

/-- The bytes that are returned, `none` for -1. -/
def readFolderBytes (off len : Nat) : CabCache × Option (List UInt8) :=
  c.readLoop len s off len

def decodeBlock (b : CabBlock) (dict : List UInt8) : Option (List UInt8) :=
  let out := c.inflate (c.raw b) b.cbUncomp.toNat dict
  if !c.readable b then none
  else if c.compType = 0 then if b.cbData.toNat > 32768 then none else some (c.raw b)
  else if c.compType = 1 then
    if b.cbData.toNat > 36864 ∨ b.cbUncomp.toNat > 32768 ∨ !out.2 then none else some out.1
  else none

/-- A block of no bytes leaves the dictionary as it is. -/
def nextDict (dict w : List UInt8) : List UInt8 := if w = [] then dict else w

def decodeFrom (dict : List UInt8) : List CabBlock → List (List UInt8)
  | [] => []
  | b :: bs =>
    match c.decodeBlock b dict with
    | some w => w :: decodeFrom (nextDict dict w) bs
    | none => []

def decoded : List (List UInt8) := c.decodeFrom [] c.blocks

def dictAt (k : Nat) : List UInt8 := (c.decoded.take k).foldl nextDict []

/-- Each block that starts before `e` decodes, in order from the first, to as many bytes as the map
has for it. -/
def Intact (e : Nat) : Prop :=
  ∀ i < c.blocks.length, c.uncompOff i < e →
    (c.decoded[i]?).map List.length = some (c.uncompLen i)

instance (e : Nat) : Decidable (c.Intact e) := by
  unfold Intact
  infer_instance

variable {c} {s : CabCache} {i k off len e : Nat} {b : CabBlock} {w : List UInt8}

theorem decodeFrom_get (h : (c.decodeFrom dict bs)[k]? = some w) : ∃ b, bs[k]? = some b ∧
      c.decodeBlock b (((c.decodeFrom dict bs).take k).foldl nextDict dict) = some w := by
  induction bs generalizing dict k with
  | nil => simp [decodeFrom] at h
  | cons b bs ih =>
    rw [decodeFrom] at h ⊢
    cases hb : c.decodeBlock b dict with
    | none => simp [hb] at h
    | some v =>
      simp only [hb] at h ⊢
      cases k with
      | zero =>
        obtain rfl : v = w := by simpa using h
        exact ⟨b, rfl, hb⟩
      | succ k => exact ih (by simpa using h)

theorem decodeBlock_of_get (h : c.decoded[k]? = some w) :
    ∃ b, c.blocks[k]? = some b ∧ c.decodeBlock b (c.dictAt k) = some w :=
  decodeFrom_get h

theorem dictAt_succ (h : c.decoded[k]? = some w) : c.dictAt (k + 1) = nextDict (c.dictAt k) w := by
  rw [dictAt, take_add_one, h, foldl_append]
  rfl

structure Cached (c : Cabinet) (s : CabCache) (j : Nat) (w : List UInt8) : Prop where
  idx : s.blockIdx = some j
  block : c.decoded[j]? = some w
  fileOff : (c.blocks[j]?).map (·.fileDataOff) = some s.fileOff
  len : s.curLen = w.length
  cur : s.cur.take w.length = w
  prev : c.compType = 1 → s.prev.take s.prevLen = c.dictAt j

def Sound (c : Cabinet) (s : CabCache) : Prop := ∀ j, s.blockIdx = some j → ∃ w, c.Cached s j w

/-- The cache is that of the block before `k`, or there is none and no dictionary. -/
def Ready (c : Cabinet) (s : CabCache) (k : Nat) : Prop :=
  k = 0 ∧ s.prevLen = 0 ∨ ∃ j v, k = j + 1 ∧ c.Cached s j v

theorem keepPrev_dict (hone : c.compType = 1) (h : c.Ready s k) :
    (keepPrev s k).prev.take (keepPrev s k).prevLen = c.dictAt k := by
  obtain ⟨rfl, hlen⟩ | ⟨j, v, rfl, hv⟩ := h
  · simp [keepPrev, hlen, dictAt]
  · rw [dictAt_succ hv.block]
    by_cases hnil : v = []
    · have hlen : ¬ 0 < s.curLen := by simp [hv.len, hnil]
      rw [keepPrev, if_neg fun h => hlen h.2, hv.prev hone, nextDict, if_pos hnil]
    · have hlen : 0 < s.curLen := by
        rw [hv.len]
        exact length_pos_iff.mpr hnil
      rw [keepPrev, if_pos ⟨Nat.succ_pos j, hlen⟩, nextDict, if_neg hnil, hv.len, hv.cur, take_put]

theorem inflateStep_ok (hone : c.compType = 1) (h : c.Ready s k) (hb : c.blocks[k]? = some b)
    (hw : c.decoded[k]? = some w) :
    ∃ next, c.inflateStep s k b = (next, true) ∧ c.Cached next k w := by
  obtain ⟨b', hb', hdec⟩ := decodeBlock_of_get hw
  obtain rfl : b = b' := Option.some.inj (hb.symm.trans hb')
  have hdict := keepPrev_dict hone h
  simp only [decodeBlock, hone, one_ne_zero, if_false, if_true] at hdec
  split_ifs at hdec with hread hbad
  simp only [not_or, Bool.not_eq_true', Bool.not_eq_false] at hbad hread
  obtain ⟨hdata, huncomp, hok⟩ := hbad
  simp only [inflateStep, hdict, hdata, huncomp, or_self, if_false, hread, hok, Bool.not_true,
    Bool.false_eq_true, if_true]
  obtain rfl := Option.some.inj hdec
  exact ⟨_, rfl, rfl, hw, by rw [hb]; rfl, rfl, take_put .., fun _ => hdict⟩

theorem inflateFrom_ok (hone : c.compType = 1) (h : c.Ready s k)
    (hdec : ∀ j < k + n, ∃ w, c.decoded[j]? = some w) :
    ∃ next, c.inflateFrom s k n = (next, true) ∧ c.Ready next (k + n) := by
  induction n generalizing s k with
  | zero => exact ⟨s, rfl, h⟩
  | succ n ih =>
    obtain ⟨w, hw⟩ := hdec k (by omega)
    obtain ⟨b, hb, -⟩ := decodeBlock_of_get hw
    obtain ⟨next, hstep, hnext⟩ := inflateStep_ok hone h hb hw
    rw [inflateFrom, hb, Option.map_some, hstep]
    have hrest := ih (.inr ⟨k, w, rfl, hnext⟩) fun j hj => hdec j (by omega)
    rwa [Nat.add_right_comm] at hrest

theorem loadStored_ok (hzero : c.compType = 0) (hb : c.blocks[i]? = some b)
    (hw : c.decoded[i]? = some w) :
    ∃ next, c.loadStored s i b = (next, true) ∧ c.Cached next i w := by
  obtain ⟨b', hb', hdec⟩ := decodeBlock_of_get hw
  obtain rfl : b = b' := Option.some.inj (hb.symm.trans hb')
  simp only [decodeBlock, hzero, if_true] at hdec
  split_ifs at hdec with hread hbig
  simp only [Bool.not_eq_true', Bool.not_eq_false] at hread
  obtain rfl := Option.some.inj hdec
  have hraw : (c.raw b).length = b.cbData.toNat := by
    simp only [readable, Bool.and_eq_true, decide_eq_true_eq] at hread
    rw [raw, if_pos hread.1, File.length_bytes, hread.2]
  rw [loadStored, if_neg hbig, if_pos hread]
  refine ⟨_, rfl, rfl, hw, by rw [hb]; rfl, hraw.symm, take_put .., fun hone => ?_⟩
  rw [hzero] at hone
  cases hone

theorem loadBlock_ok (h : c.Sound s) (hi : ∀ j ≤ i, ∃ w, c.decoded[j]? = some w)
    (hw : c.decoded[i]? = some w) :
    ∃ next, c.loadBlock s i = (next, some w.length) ∧ c.Cached next i w := by
  obtain ⟨b, hb, hdec⟩ := decodeBlock_of_get hw
  have hlen : ∀ {next v}, c.Cached next i v → c.Cached next i w ∧ next.curLen = w.length := by
    intro next v hv
    obtain rfl : v = w := Option.some.inj (hv.block.symm.trans hw)
    exact ⟨hv, hv.len⟩
  rw [loadBlock, hb]
  dsimp only
  by_cases hhit : s.blockIdx = some i ∧ s.fileOff = b.fileDataOff
  · obtain ⟨v, hv⟩ := h i hhit.1
    rw [if_pos hhit, (hlen hv).2]
    exact ⟨s, rfl, (hlen hv).1⟩
  rw [if_neg hhit]
  by_cases hzero : c.compType = 0
  · obtain ⟨next, heq, hnext⟩ := loadStored_ok (s := s) hzero hb hw
    rw [if_pos hzero, heq]
    exact ⟨next, by rw [hnext.len]; rfl, hnext⟩
  have hone : c.compType = 1 := by
    by_contra hone
    simp [decodeBlock, hzero, hone] at hdec
  rw [if_neg hzero, if_pos hone]
  -- The loop goes on from the cached block, or from the first one without a dictionary.
  have hloop : ∀ s' k n, k + n = i + 1 → c.Ready s' k →
      ∃ next, c.inflateFrom s' k n = (next, true) ∧ c.Cached next i w := by
    intro s' k n hn hready
    obtain ⟨next, heq, ⟨hzero, -⟩ | ⟨j, v, hj, hv⟩⟩ :=
      inflateFrom_ok (n := n) hone hready fun j hj => hi j (by omega)
    · omega
    · obtain rfl : j = i := by omega
      exact ⟨next, heq, (hlen hv).1⟩
  cases hbefore : c.cachedBefore s i with
  | none =>
    obtain ⟨next, heq, hnext⟩ :=
      hloop { s with prevLen := 0 } 0 (i + 1) (by omega) (.inl ⟨rfl, rfl⟩)
    simp only [heq]
    exact ⟨next, by rw [hnext.len]; rfl, hnext⟩
  | some j =>
    obtain ⟨hj, htest⟩ := Option.filter_eq_some_iff.mp hbefore
    have hlt := (of_decide_eq_true htest).1
    obtain ⟨v, hv⟩ := h j hj
    obtain ⟨next, heq, hnext⟩ := hloop s (j + 1) (i - j) (by omega) (.inr ⟨j, v, rfl, hv⟩)
    simp only [heq]
    exact ⟨next, by rw [hnext.len]; rfl, hnext⟩

/-- All blocks decoded in order, one behind the other. -/
def content (c : Cabinet) : List UInt8 := c.decoded.flatten

theorem uncompOff_mono : Monotone c.uncompOff :=
  monotone_nat_of_le_succ fun _ => Nat.le_add_right _ _

theorem exists_block (h : off < c.uncompOff n) :
    ∃ i < n, c.uncompOff i ≤ off ∧ off < c.uncompOff i + c.uncompLen i := by
  induction n with
  | zero => exact absurd h (Nat.not_lt_zero off)
  | succ n ih =>
    by_cases hn : off < c.uncompOff n
    · obtain ⟨i, hi, hblock⟩ := ih hn
      exact ⟨i, hi.trans (Nat.lt_succ_self n), hblock⟩
    · exact ⟨n, Nat.lt_succ_self n, Nat.not_lt.mp hn, h⟩

theorem findBlock_none (h : c.findBlock off = none) : c.uncompOff c.blocks.length ≤ off := by
  by_contra hlt
  obtain ⟨i, hi, hblock⟩ := exists_block (Nat.not_le.mp hlt)
  have hnone := find?_eq_none.mp h i (mem_range.mpr hi)
  simp [hblock] at hnone

theorem findBlock_some (h : c.findBlock off = some i) :
    i < c.blocks.length ∧ c.uncompOff i ≤ off ∧ off < c.uncompOff i + c.uncompLen i := by
  have htest := find?_some h
  rw [Bool.and_eq_true, decide_eq_true_eq, decide_eq_true_eq] at htest
  exact ⟨mem_range.mp (mem_of_find?_eq_some h), htest⟩

theorem Intact.get (h : c.Intact e) (hi : i < c.blocks.length) (he : c.uncompOff i < e) :
    ∃ w, c.decoded[i]? = some w ∧ w.length = c.uncompLen i := by
  simpa using h i hi he

theorem Intact.length_take (h : ∀ j < i, ∃ w, c.decoded[j]? = some w ∧ w.length = c.uncompLen j) :
    (c.decoded.take i).flatten.length = c.uncompOff i := by
  induction i with
  | zero => rfl
  | succ i ih =>
    obtain ⟨w, hw, hlen⟩ := h i (Nat.lt_succ_self i)
    rw [take_add_one, hw, flatten_append, length_append,
      ih fun j hj => h j (hj.trans (Nat.lt_succ_self i)), uncompOff]
    simp [hlen]

theorem take_drop_content (hw : c.decoded[i]? = some w) (hn : rel + n ≤ w.length)
    (hoff : (c.decoded.take i).flatten.length = c.uncompOff i) :
    (c.content.drop (c.uncompOff i + rel)).take n = (w.drop rel).take n := by
  obtain ⟨hi, rfl⟩ := List.getElem?_eq_some_iff.mp hw
  have hsplit : c.content = (c.decoded.take i).flatten ++ (c.decoded[i] ++
      (c.decoded.drop (i + 1)).flatten) := by
    rw [content, ← flatten_cons, ← drop_eq_getElem_cons hi, ← flatten_append, take_append_drop]
  have hdrop : n ≤ (c.decoded[i].drop rel).length := by
    rw [length_drop]
    omega
  rw [hsplit, ← hoff, drop_append, drop_eq_nil_of_le (Nat.le_add_right _ rel),
    nil_append, Nat.add_sub_cancel_left, drop_append_of_le_length (by omega),
    take_append_of_le_length hdrop]

theorem length_decoded_le (c : Cabinet) : c.decoded.length ≤ c.blocks.length := by
  by_contra hlt
  obtain ⟨b, hb, -⟩ := decodeBlock_of_get (getElem?_eq_getElem (Nat.not_le.mp hlt))
  simp at hb

theorem readLoop_ok (hs : c.Sound s) (h : c.Intact (off + len)) (hfuel : len ≤ fuel) :
    ∃ next, c.readLoop fuel s off len = (next, some ((c.content.drop off).take len)) ∧
      c.Sound next := by
  induction fuel generalizing s off len with
  | zero =>
    obtain rfl : len = 0 := by omega
    exact ⟨s, by simp [readLoop], hs⟩
  | succ fuel ih =>
    rw [readLoop]
    by_cases hlen : len = 0
    · exact ⟨s, by simp [hlen], hs⟩
    rw [if_neg hlen]
    cases hfind : c.findBlock off with
    | none =>
      have hend := findBlock_none hfind
      have hall := Intact.length_take (c := c) (i := c.blocks.length) fun j hj =>
        h.get hj ((uncompOff_mono hj.le).trans_lt (by omega))
      rw [take_of_length_le c.length_decoded_le] at hall
      have hnil : c.content.drop off = [] := drop_eq_nil_of_le (hall.trans_le hend)
      exact ⟨s, by simp [hnil], hs⟩
    | some i =>
      obtain ⟨hi, hlo, hhi⟩ := findBlock_some hfind
      have hblocks : ∀ j ≤ i, ∃ w, c.decoded[j]? = some w ∧ w.length = c.uncompLen j := fun j hj =>
        h.get (hj.trans_lt hi) ((uncompOff_mono hj).trans_lt (by omega))
      obtain ⟨w, hw, hwlen⟩ := hblocks i le_rfl
      obtain ⟨next, hload, hnext⟩ := loadBlock_ok hs
        (fun j hj => (hblocks j hj).imp fun _ h => h.1) hw
      have hsound : c.Sound next := fun j hj =>
        Option.some.inj (hnext.idx.symm.trans hj) ▸ ⟨w, hnext⟩
      generalize hn : min len (c.uncompLen i - (off - c.uncompOff i)) = n
      have hinside : off - c.uncompOff i + n ≤ w.length := by omega
      have hbytes := take_drop_content hw hinside (Intact.length_take fun j hj => hblocks j hj.le)
      have hintact : c.Intact (off + n + (len - n)) := by
        rwa [show off + n + (len - n) = off + len by omega]
      obtain ⟨last, hrest, hlast⟩ := ih hsound hintact (by omega)
      refine ⟨last, ?_, hlast⟩
      have hcur : (next.cur.drop (off - c.uncompOff i)).take n = (c.content.drop off).take n := by
        rw [Nat.add_sub_cancel' hlo] at hbytes
        rw [hbytes, ← hnext.cur, drop_take, take_take, min_eq_left (by omega)]
      simp only [hload, hn, Option.any_some, hinside, decide_true, if_true, hrest, Option.map_some,
        hcur]
      rw [← drop_drop, ← take_add, Nat.add_sub_cancel' (by omega)]

def step (c : Cabinet) (s : CabCache) (call : Nat × Nat) : Option CabCache :=
  some (c.readFolderBytes s call.1 call.2).1

/-- In every run of calls that only ask for blocks that decode, a call returns the bytes at its
offset of all blocks decoded in order. -/
theorem cab_reads_in_order (h : Reaches c.step (fun _ call => c.Intact (call.1 + call.2)) {} s)
    (hcall : c.Intact (off + len)) :
    (c.readFolderBytes s off len).2 = some ((c.content.drop off).take len) := by
  have hempty : c.Sound {} := fun j hj => by cases hj
  have hsound : c.Sound s := h.invariant hempty fun a call b ha hg hb => by
    obtain ⟨next, heq, hnext⟩ := readLoop_ok ha hg le_rfl
    rw [step, readFolderBytes, heq] at hb
    exact Option.some.inj hb ▸ hnext
  obtain ⟨next, heq, -⟩ := readLoop_ok hsound hcall le_rfl
  rw [readFolderBytes, heq]

def storedPair (file : File) : Cabinet where
  typeCompress := 0
  blocks := [⟨0, 2, 2⟩, ⟨2, 2, 2⟩]
  file := file
  inflate _ _ _ := ([], false)

def wholePair : Cabinet := storedPair (.ofList [1, 2, 3, 4] (by decide))

theorem whole_pair_read :
    (wholePair.readFolderBytes (wholePair.readFolderBytes {} 2 2).1 1 2).2 = some [2, 3] := by
  have hrun : Reaches wholePair.step (fun _ call => wholePair.Intact (call.1 + call.2)) {}
      (wholePair.readFolderBytes {} 2 2).1 := .tail (i := (2, 2)) .refl (by decide) rfl
  exact cab_reads_in_order hrun (by decide)

/-- The second block ends after one byte of the file.  The call for it fails, and the byte is then
returned as the first byte of the first block. -/
theorem failed_read_spoils_cache :
    let c := storedPair (.ofList [1, 2, 3] (by decide))
    let first := c.readFolderBytes {} 0 2
    let failed := c.readFolderBytes first.1 2 2
    let again := c.readFolderBytes failed.1 0 2
    c.content = [1, 2] ∧ first.2 = some [1, 2] ∧ failed.2 = none ∧ again.2 = some [3, 2] := by
  decide

end Cabinet

end Six.Fwupd
