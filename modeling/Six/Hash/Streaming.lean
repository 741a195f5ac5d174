import Six.Hash.Fixed
import Six.Fwupd.Stream

/-! The functions of the source that hash a message as it arrives: `fwupd_sha256_update` and
`fwupd_sha256_final` in `include/linux/fwupd.h`, which take one byte at a time, and `sha256_update`
and `sha256_final` in `applications/ota/ota.c`, which take whole blocks. -/

namespace Six.Hash

open Lib Sha256 BlockHash List UInt32

structure Sha256Ctx where
  state : Fin 8 → UInt32
  totalBytes : UInt64
  bufLen : Nat
  buf : Nat → UInt8

namespace Sha256Ctx

variable (ctx : Sha256Ctx)

/-- `sha256_init`, which leaves the buffer as it is. -/
def init : Sha256Ctx :=
  { ctx with state := initState, totalBytes := 0, bufLen := 0 }

def store (b : UInt8) : Sha256Ctx :=
  { ctx with
    bufLen := ctx.bufLen + 1
    buf := fun i => if i = ctx.bufLen then b else ctx.buf i }

def flush : Sha256Ctx :=
  { ctx with state := sha256Transform ctx.state ctx.buf, bufLen := 0 }

/-- The loop over the whole blocks of the caller's data: the state, and what is left. -/
def blocks (state : Fin 8 → UInt32) (data : List UInt8) : (Fin 8 → UInt32) × List UInt8 :=
  if 64 ≤ data.length then
    blocks (sha256Transform state fun i => data.getD i 0) (data.drop 64)
  else (state, data)
termination_by data.length
decreasing_by
  rw [length_drop]
  omega

def update (data : List UInt8) : Sha256Ctx :=
  let ctx := { ctx with totalBytes := ctx.totalBytes + UInt64.ofNat data.length }
  let room := if ctx.bufLen > 0 then 64 - ctx.bufLen else 0
  let ctx := (data.take room).foldl store ctx
  let ctx := if ctx.bufLen = 64 then ctx.flush else ctx
  let r := blocks ctx.state (data.drop room)
  r.2.foldl store { ctx with state := r.1 }

def zeros (n : Nat) : Sha256Ctx :=
  (List.replicate (n - ctx.bufLen) 0).foldl store ctx

def final : Digest :=
  let bits := ctx.totalBytes * 8
  let ctx := ctx.store 0x80
  let ctx := if ctx.bufLen > 56 then (ctx.zeros 64).flush else ctx
  let ctx := ctx.zeros 56
  let buf := fun i => if 56 ≤ i ∧ i < 64 then
    ((bits >>> UInt64.ofNat ((7 - (i - 56)) * 8)) &&& 0xff).toUInt8 else ctx.buf i
  outDigest (sha256Transform ctx.state buf)

end Sha256Ctx

structure Buffered (bufLen : Nat) (buf : Nat → UInt8) (rest : List UInt8) : Prop where
  len : bufLen = rest.length
  get : ∀ i < rest.length, buf i = rest.getD i 0

namespace Buffered

variable {bufLen : Nat} {buf : Nat → UInt8} {rest : List UInt8}

theorem nil (buf : Nat → UInt8) : Buffered 0 buf [] :=
  ⟨rfl, fun _ hi => absurd hi (Nat.not_lt_zero _)⟩

theorem store (h : Buffered bufLen buf rest) (b : UInt8) :
    Buffered (bufLen + 1) (fun i => if i = bufLen then b else buf i) (rest ++ [b]) := by
  refine ⟨by rw [h.len, length_append, length_singleton], fun i hi => ?_⟩
  rw [length_append, length_singleton] at hi
  rw [h.len]
  split
  · rename_i heq
    rw [heq, getD_append_right _ _ _ _ (Nat.le_refl _), Nat.sub_self]
    rfl
  · rw [getD_append _ _ _ _ (by omega)]
    exact h.get i (by omega)

theorem sha256Transform_eq_compressList (h : Buffered bufLen buf rest) (hfull : rest.length = 64)
    (state : Fin 8 → UInt32) : sha256Transform state buf = compressList state rest := by
  rw [sha256Transform_eq, compressList]
  exact compress_congr fun i hi => h.get i (by omega)

end Buffered

theorem getD_marked (rest tail : List UInt8) (z i : Nat) :
    (rest ++ 0x80 :: (replicate z 0 ++ tail)).getD i 0 = if i < rest.length then rest.getD i 0
      else if i = rest.length then 0x80 else if i < rest.length + 1 + z then 0
      else tail.getD (i - (rest.length + 1 + z)) 0 := by
  split
  · rename_i hi
    rw [getD_append _ _ _ _ hi]
  · rename_i hi
    rw [getD_append_right _ _ _ _ (Nat.le_of_not_lt hi)]
    split
    · rename_i heq
      rw [heq, Nat.sub_self]
      rfl
    · rename_i hne
      obtain ⟨k, rfl⟩ : ∃ k, i = rest.length + (k + 1) := ⟨i - rest.length - 1, by omega⟩
      rw [Nat.add_sub_cancel_left, getD_cons_succ]
      split
      · rename_i hz
        rw [getD_append _ _ _ _ (by rw [length_replicate]; omega), getD_replicate _ (by omega)]
      · rename_i hz
        rw [getD_append_right _ _ _ _ (by rw [length_replicate]; omega), length_replicate]
        exact congrArg (tail.getD · 0) (by omega)

namespace Sha256Ctx

structure At (ctx : Sha256Ctx) (r : (Fin 8 → UInt32) × List UInt8) : Prop where
  state : ctx.state = r.1
  buffered : Buffered ctx.bufLen ctx.buf r.2

variable {ctx : Sha256Ctx} {s : Fin 8 → UInt32} {rest data m : List UInt8}
  {r : (Fin 8 → UInt32) × List UInt8}

section

variable (h : ctx.At (s, rest))
include h

theorem At.store (b : UInt8) : (ctx.store b).At (s, rest ++ [b]) := ⟨h.state, h.buffered.store b⟩

theorem At.foldl_store (data : List UInt8) :
    (data.foldl Sha256Ctx.store ctx).At (s, rest ++ data) := by
  induction data generalizing ctx rest with
  | nil =>
    rw [append_nil]
    exact h
  | cons b data ih =>
    have hrest := ih (h.store b)
    rw [append_assoc, singleton_append] at hrest
    exact hrest

theorem At.flush (hfull : rest.length = 64) : ctx.flush.At (compressList s rest, []) := by
  refine ⟨?_, .nil _⟩
  change sha256Transform ctx.state ctx.buf = _
  rw [h.buffered.sha256Transform_eq_compressList hfull, h.state]

theorem At.zeros (n : Nat) : (ctx.zeros n).At (s, rest ++ replicate (n - rest.length) 0) := by
  rw [Sha256Ctx.zeros, h.buffered.len]
  exact h.foldl_store _

end

theorem blocks_eq (s : Fin 8 → UInt32) (data : List UInt8) :
    blocks s data = absorb 64 compressList (s, []) data := by
  induction s, data using blocks.induct with
  | case1 s data hlen ih =>
    have hblock : sha256Transform s (fun i => data.getD i 0) = compressList s (data.take 64) := by
      rw [sha256Transform_eq, compressList]
      refine compress_congr fun i hi => ?_
      rw [getD_eq_getElem?_getD, getD_eq_getElem?_getD, getElem?_take_of_lt hi]
    have hsplit : absorb 64 compressList (s, []) data =
        absorb 64 compressList (compressList s (data.take 64), []) (data.drop 64) := by
      rw [← absorb_block (by decide) (length_take_of_le hlen), take_append_drop]
    rw [blocks, if_pos hlen, ih, hblock, hsplit]
  | case2 s data hlen =>
    rw [blocks, if_neg hlen, absorb_short (by simpa using hlen), nil_append]

theorem At.mono {ctx' : Sha256Ctx} (h : ctx.At r) (hstate : ctx'.state = ctx.state)
    (hlen : ctx'.bufLen = ctx.bufLen) (hbuf : ctx'.buf = ctx.buf) : ctx'.At r :=
  ⟨hstate.trans h.state, hlen ▸ hbuf ▸ h.buffered⟩

theorem At.update (h : ctx.At (s, rest)) (hrest : rest.length < 64) :
    (ctx.update data).At (absorb 64 compressList (s, rest) data) := by
  have hfinish : ∀ (ctx : Sha256Ctx) (s : Fin 8 → UInt32) (data : List UInt8), ctx.At (s, []) →
      ((blocks ctx.state data).2.foldl Sha256Ctx.store
        { ctx with state := (blocks ctx.state data).1 }).At
        (absorb 64 compressList (s, []) data) := by
    intro ctx s data h
    have hkept : ({ ctx with state := (blocks ctx.state data).1 } : Sha256Ctx).At
        ((blocks ctx.state data).1, []) := ⟨rfl, h.buffered⟩
    have hstored := hkept.foldl_store (blocks ctx.state data).2
    rw [nil_append, blocks_eq, h.state] at hstored
    rw [blocks_eq, h.state]
    exact hstored
  have hlen := h.buffered.len
  have hcounted : ({ ctx with totalBytes := ctx.totalBytes + UInt64.ofNat data.length } :
      Sha256Ctx).At (s, rest) := h.mono rfl rfl rfl
  unfold Sha256Ctx.update
  dsimp only
  by_cases hempty : rest.length = 0
  · -- nothing is kept: the buffer is not filled up
    have hroom : (if ctx.bufLen > 0 then 64 - ctx.bufLen else 0) = 0 :=
      if_neg (by dsimp only at hlen; omega)
    obtain rfl := length_eq_zero_iff.mp hempty
    rw [hroom, take_zero, foldl_nil, drop_zero, if_neg (by dsimp only at hlen ⊢; omega)]
    exact hfinish _ s data hcounted
  · have hroom : (if ctx.bufLen > 0 then 64 - ctx.bufLen else 0) = 64 - rest.length := by
      rw [if_pos (by dsimp only at hlen; omega), hlen]
    rw [hroom]
    have hstored := hcounted.foldl_store (data.take (64 - rest.length))
    have hbuf := hstored.buffered.len
    simp only [length_append, length_take] at hbuf
    by_cases hshort : data.length < 64 - rest.length
    · rw [if_neg (by rw [hbuf]; omega), drop_eq_nil_of_le (by omega), blocks_eq, absorb_nil,
        absorb_short (by omega)]
      rw [take_of_length_le (by omega)] at hstored ⊢
      exact hstored.mono rfl rfl rfl
    · have hfill : (rest ++ data.take (64 - rest.length)).length = 64 := by
        rw [length_append, length_take]
        omega
      have hne : data.take (64 - rest.length) ≠ [] := by
        intro hnil
        rw [hnil, append_nil] at hfill
        omega
      have hfilled : absorb 64 compressList (s, rest) (data.take (64 - rest.length)) =
          (compressList s (rest ++ data.take (64 - rest.length)), []) :=
        absorb_fill (by rw [← length_append, hfill]) hne
      have hsplit : absorb 64 compressList (s, rest) data =
          absorb 64 compressList (compressList s (rest ++ data.take (64 - rest.length)), [])
            (data.drop (64 - rest.length)) := by
        rw [← hfilled, ← absorb_append, take_append_drop]
      rw [if_pos (by rw [hbuf]; omega), hsplit]
      exact hfinish _ _ _ (hstored.flush hfill)

theorem totalBytes_foldl_store : (data.foldl store ctx).totalBytes = ctx.totalBytes := by
  induction data generalizing ctx with
  | nil => rfl
  | cons b data ih => exact ih

theorem totalBytes_flushed :
    (if ctx.bufLen = n then ctx.flush else ctx).totalBytes = ctx.totalBytes := by
  split <;> rfl

theorem totalBytes_update :
    (ctx.update data).totalBytes = ctx.totalBytes + UInt64.ofNat data.length := by
  unfold update
  rw [totalBytes_foldl_store]
  exact totalBytes_flushed.trans totalBytes_foldl_store

theorem At.last (h : ctx.At (s, rest)) (hrest : rest.length = 56) {f : Nat → UInt8}
    (hf : ∀ i < 8, f (56 + i) = len.getD i 0) :
    sha256Transform ctx.state (fun i => if 56 ≤ i ∧ i < 64 then f i else ctx.buf i) =
      compressList s (rest ++ len) := by
  rw [sha256Transform_eq, compressList, h.state]
  refine compress_congr fun i hi => ?_
  split
  · rename_i hlast
    obtain ⟨k, rfl⟩ : ∃ k, i = 56 + k := ⟨i - 56, by omega⟩
    rw [hf k (by omega), getD_append_right _ _ _ _ (by omega), hrest, Nat.add_sub_cancel_left]
  · rename_i hlast
    rw [getD_append _ _ _ _ (by omega)]
    exact h.buffered.get i (by dsimp only; omega)

theorem length_byte (hn : n < 2 ^ 61) (hi : i < 8) :
    (((UInt64.ofNat n * 8) >>> UInt64.ofNat ((7 - (56 + i - 56)) * 8)) &&& 0xff).toUInt8 =
      (lengthBytes (8 * n)).getD i 0 := by
  have hshift : (UInt64.ofNat ((7 - (56 + i - 56)) * 8)).toNat % 64 = 8 * (7 - i) := by
    rw [UInt64.toNat_ofNat']
    omega
  have hbits : (UInt64.ofNat n * 8).toNat = 8 * n := by
    have height : (8 : UInt64).toNat = 8 := rfl
    rw [UInt64.toNat_mul, UInt64.toNat_ofNat', height]
    omega
  have hmask : (0xff : UInt64).toNat = 2 ^ 8 - 1 := rfl
  apply UInt8.toNat_inj.mp
  rw [lengthBytes, getD_eq_getElem?_getD, getElem?_map, getElem?_range hi,
    UInt64.toNat_toUInt8, UInt64.toNat_and, UInt64.toNat_shiftRight, hshift, hbits, hmask,
    Nat.and_two_pow_sub_one_eq_mod, Nat.mod_mod, Nat.shiftRight_eq_div_pow]
  exact (UInt8.toNat_ofNat').symm

theorem At.final (h : ctx.At (absorb 64 compressList (initial, []) m))
    (htotal : ctx.totalBytes = UInt64.ofNat m.length) (hm : m.length < 2 ^ 61) :
    ctx.final = sha256 m := by
  rcases hr : absorb 64 compressList (initial, []) m with ⟨s, rest⟩
  rw [hr] at h
  have hrest : rest.length < 64 := by
    have hlt := length_absorb_initial m
    rw [hr] at hlt
    exact hlt
  have hmarked := h.store 0x80
  have hlen := hmarked.buffered.len
  simp only [length_append, length_singleton] at hlen
  rw [sha256, hashBlocks_pad hr]
  unfold Sha256Ctx.final
  rw [outDigest_eq, htotal]
  refine congrArg digest ?_
  by_cases hroom : rest.length < 56
  · have hzeros := hmarked.zeros 56
    rw [if_neg (by rw [hlen]; omega), if_pos hroom]
    rw [length_append, length_singleton] at hzeros
    rw [hzeros.last (by simp; omega) fun i hi => length_byte hm hi]
    rw [append_assoc, append_assoc, singleton_append,
      show 56 - (rest.length + 1) = 55 - rest.length by omega]
  · have hzeros := hmarked.zeros 64
    rw [length_append, length_singleton] at hzeros
    have hflush := (hzeros.flush (by simp; omega)).zeros 56
    rw [if_pos (by rw [hlen]; omega), if_neg hroom]
    rw [hflush.last (by simp) fun i hi => length_byte hm hi]
    rw [append_assoc, singleton_append,
      show 64 - (rest.length + 1) = 63 - rest.length by omega]
    rfl

def Absorbed (ctx : Sha256Ctx) (m : List UInt8) : Prop :=
  ctx.At (absorb 64 compressList (initial, []) m) ∧ ctx.totalBytes = UInt64.ofNat m.length

theorem Absorbed.update (ctx : Sha256Ctx) (m data : List UInt8) (h : ctx.Absorbed m) :
    (ctx.update data).Absorbed (m ++ data) := by
  constructor
  · rw [absorb_append]
    exact At.update (s := (absorb 64 compressList (initial, []) m).1) h.1 (length_absorb_initial m)
  · rw [totalBytes_update, h.2, length_append, UInt64.ofNat_add]

end Sha256Ctx

def fwupdSha256Block : Fwupd.Compress := sha256Transform

structure FwupdAt (ctx : Fwupd.Sha256Ctx) (r : (Fin 8 → UInt32) × List UInt8) : Prop where
  state : ctx.state = r.1
  buffered : Buffered ctx.bufLen ctx.buf r.2

namespace FwupdAt

open Fwupd

variable {ctx : Fwupd.Sha256Ctx} {s : Fin 8 → UInt32} {rest data m : List UInt8}
  {r : (Fin 8 → UInt32) × List UInt8}

theorem init (ctx : Fwupd.Sha256Ctx) : FwupdAt ctx.init (initial, []) := ⟨rfl, .nil _⟩

theorem feed (h : FwupdAt ctx r) (b : UInt8) :
    FwupdAt (ctx.feed fwupdSha256Block b) (push 64 compressList r b) := by
  have hstored := h.buffered.store b
  have hlen := h.buffered.len
  unfold Fwupd.Sha256Ctx.feed push
  by_cases hfull : r.2.length + 1 = 64
  · have hbytes : (r.2 ++ [b]).length = 64 := by
      rw [length_append, length_singleton]
      exact hfull
    rw [if_pos (by rw [hlen]; exact hfull), if_pos hfull]
    refine ⟨?_, .nil _⟩
    change sha256Transform ctx.state _ = _
    rw [hstored.sha256Transform_eq_compressList hbytes, h.state]
  · dsimp only
    rw [if_neg (by rw [hlen]; exact hfull), if_neg hfull]
    exact ⟨h.state, hstored⟩

theorem foldl_feed (h : FwupdAt ctx r) :
    FwupdAt (data.foldl (Fwupd.Sha256Ctx.feed fwupdSha256Block) ctx)
      (absorb 64 compressList r data) := by
  induction data generalizing ctx r with
  | nil => exact h
  | cons b data ih => exact ih (h.feed b)

theorem update (h : FwupdAt ctx r) :
    FwupdAt (ctx.update fwupdSha256Block data) (absorb 64 compressList r data) :=
  foldl_feed ⟨h.state, h.buffered⟩

theorem totalLen_update : (ctx.update fwupdSha256Block data).totalLen =
    ctx.totalLen + ofNat data.length :=
  Fwupd.Sha256Ctx.totalLen_foldl_feed ..

theorem lengthBytes_eq (hn : n < 2 ^ 32) :
    Fwupd.lengthBytes (ofNat n) = Sha256.lengthBytes (8 * n) := by
  have hnat : (ofNat n).toNat = n := by
    rw [toNat_ofNat']
    omega
  have hhi : (ofNat n >>> 29).toNat = n / 2 ^ 29 := by
    rw [UInt32.toNat_shiftRight, hnat]
    exact Nat.shiftRight_eq_div_pow n 29
  have hlo : (ofNat n * 8).toNat = 8 * n % 2 ^ 32 := by
    have height : (8 : UInt32).toNat = 8 := rfl
    rw [UInt32.toNat_mul, hnat, height, Nat.mul_comm]
  have hbyte : ∀ (x : UInt32) (k : Nat), k < 32 →
      ((x >>> ofNat k).toUInt8).toNat = x.toNat / 2 ^ k % 256 := by
    intro x k hk
    have hshift : (ofNat k).toNat % 32 = k := by
      rw [toNat_ofNat']
      omega
    rw [toNat_toUInt8, UInt32.toNat_shiftRight, hshift, Nat.shiftRight_eq_div_pow]
  unfold Fwupd.lengthBytes Sha256.lengthBytes
  simp only [range, range.loop, map_cons, map_nil]
  have hof : ∀ a : Nat, (UInt8.ofNat a).toNat = a % 256 := fun a => UInt8.toNat_ofNat'
  have h24 := fun x => hbyte x 24 (by decide)
  have h16 := fun x => hbyte x 16 (by decide)
  have h8 := fun x => hbyte x 8 (by decide)
  simp only [cons.injEq, ← UInt8.toNat_inj, hof, and_true]
  refine ⟨?_, ?_, ?_, ?_, ?_, ?_, ?_, ?_⟩
  · exact (h24 _).trans (by rw [hhi]; omega)
  · exact (h16 _).trans (by rw [hhi]; omega)
  · exact (h8 _).trans (by rw [hhi]; omega)
  · rw [toNat_toUInt8, hhi]
    omega
  · exact (h24 _).trans (by rw [hlo]; omega)
  · exact (h16 _).trans (by rw [hlo]; omega)
  · exact (h8 _).trans (by rw [hlo]; omega)
  · rw [toNat_toUInt8, hlo]
    omega

theorem toUInt8_and_mask (x : UInt32) : (x &&& 0xff).toUInt8 = x.toUInt8 := by
  have hmask : (0xff : UInt32).toNat = 2 ^ 8 - 1 := rfl
  apply UInt8.toNat_inj.mp
  rw [toNat_toUInt8, toNat_toUInt8, UInt32.toNat_and, hmask,
    Nat.and_two_pow_sub_one_eq_mod, Nat.mod_mod]

theorem final (h : FwupdAt ctx (absorb 64 compressList (initial, []) m))
    (htotal : ctx.totalLen = ofNat m.length) (hm : m.length < 2 ^ 32) :
    (ctx.final fwupdSha256Block).1 = sha256 m := by
  rcases hr : absorb 64 compressList (initial, []) m with ⟨s, rest⟩
  rw [hr] at h
  have hlen : ctx.bufLen = rest.length := h.buffered.len
  have hstate : ctx.state = s := h.state
  have hget : ∀ i < rest.length, ctx.buf i = rest.getD i 0 := h.buffered.get
  have hout : ∀ state : Fin 8 → UInt32, (fun i : Fin 32 =>
      (state ⟨i / 4, by omega⟩ >>> (24 - 8 * ofNat (i % 4))).toUInt8) = digest state := by
    intro state
    rw [← outDigest_eq]
    funext i
    exact (toUInt8_and_mask _).symm
  unfold Fwupd.Sha256Ctx.final
  dsimp only
  rw [hout, sha256, hashBlocks_pad hr, htotal, lengthBytes_eq hm, hlen, hstate]
  refine congrArg digest ?_
  by_cases hroom : rest.length < 56
  · rw [if_neg (by omega), if_neg (by omega), if_pos hroom, fwupdSha256Block, sha256Transform_eq,
      compressList]
    refine compress_congr fun i hi => ?_
    rw [getD_marked]
    by_cases hpad : i < 56
    · rw [if_pos hpad]
      split
      · rename_i hold
        exact hget i hold
      · split
        · rfl
        · rw [if_pos (by omega)]
    · rw [if_neg hpad, if_neg (by omega), if_neg (by omega), if_neg (by omega),
        show rest.length + 1 + (55 - rest.length) = 56 by omega]
  · have hge : rest.length ≥ 56 := Nat.le_of_not_lt hroom
    rw [if_pos hge, if_pos hge, if_neg hroom, fwupdSha256Block, sha256Transform_eq,
      sha256Transform_eq, compressList, compressList]
    have hfirst : compress s (fun i => if i < rest.length then ctx.buf i
        else if i = rest.length then 0x80 else 0) =
        compress s fun i => (rest ++ 0x80 :: List.replicate (63 - rest.length) 0).getD i 0 := by
      refine compress_congr fun i hi => ?_
      have hmarked := getD_marked rest [] (63 - rest.length) i
      rw [append_nil] at hmarked
      rw [hmarked]
      split
      · rename_i hold
        exact hget i hold
      · split
        · rfl
        · rw [if_pos (by omega)]
    rw [hfirst]
    refine compress_congr fun i hi => ?_
    by_cases hpad : i < 56
    · rw [if_pos hpad, getD_append _ _ _ _ (by simpa using hpad), getD_replicate _ hpad]
    · rw [if_neg hpad, getD_append_right _ _ _ _ (by simpa using hpad), length_replicate]

def Absorbed (ctx : Fwupd.Sha256Ctx) (m : List UInt8) : Prop :=
  FwupdAt ctx (absorb 64 compressList (initial, []) m) ∧ ctx.totalLen = UInt32.ofNat m.length

theorem Absorbed.update (ctx : Fwupd.Sha256Ctx) (m data : List UInt8) (h : Absorbed ctx m) :
    Absorbed (ctx.update fwupdSha256Block data) (m ++ data) := by
  constructor
  · rw [absorb_append]
    exact h.1.update
  · rw [totalLen_update, h.2, length_append, ofNat_add]

end FwupdAt

/-- Every variant of the source computes SHA-256: the two streaming ones for every way of cutting a
message into pieces, and those for salted blocks for every salt and block. -/
theorem variants_are_sha256 :
    (∀ (m : List UInt8) (chunks : List (List UInt8)), m.length < 2 ^ 29 → chunks.flatten = m →
      (∀ ctx : Fwupd.Sha256Ctx, ((chunks.foldl (Fwupd.Sha256Ctx.update fwupdSha256Block)
        ctx.init).final fwupdSha256Block).1 = sha256 m) ∧
      ∀ ctx : Sha256Ctx, (chunks.foldl Sha256Ctx.update ctx.init).final = sha256 m) ∧
    (∀ (salt : Digest) (blk : Fin 1024 → UInt8),
      dmSha256Salted1k salt blk = sha256 (salt.bytes ++ bytes blk)) ∧
    ∀ (salt : Digest) (blk : Fin 1024 → UInt8),
      erofsVerityHash1k (erofsVerityPrecomputeSalt salt) blk =
        sha256 (salt.bytes ++ (List.replicate 32 0 ++ bytes blk)) := by
  refine ⟨fun m chunks hm hchunks => ⟨fun ctx => ?_, fun ctx => ?_⟩, dmSha256Salted1k_eq,
    erofsVerityHash1k_eq⟩
  · have hinit : FwupdAt.Absorbed ctx.init [] := ⟨FwupdAt.init ctx, rfl⟩
    have hall := foldl_pieces FwupdAt.Absorbed.update chunks hinit
    rw [nil_append, hchunks] at hall
    exact hall.1.final hall.2 (by omega)
  · have hinit : ctx.init.Absorbed [] := ⟨⟨rfl, .nil _⟩, rfl⟩
    have hall := foldl_pieces Sha256Ctx.Absorbed.update chunks hinit
    rw [nil_append, hchunks] at hall
    exact hall.1.final hall.2 (by omega)

theorem abc_in_two_pieces : ∀ ctx : Sha256Ctx,
    ([[0x61], [0x62, 0x63]].foldl Sha256Ctx.update ctx.init).final = sha256 [0x61, 0x62, 0x63] :=
  (variants_are_sha256.1 [0x61, 0x62, 0x63] [[0x61], [0x62, 0x63]] (by decide) rfl).2

end Six.Hash
