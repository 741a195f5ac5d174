import Six.Hash.Fixed
import Six.Ufs.Rpmb

/-! The MAC of an RPMB frame, `ufs_rpmb_compute_mac` in `drivers/block/ufshcd.c` and
`rpmb_compute_mac` in `applications/ota/ota.c`. -/

namespace Six.Ufs

open Lib Sha256 BlockHash Hash List

def macMessage (data : List UInt8) (i : Nat) : UInt8 :=
  if i < 316 then data.getD i 0
  else if i = 316 then 0x80 else if i = 318 then 0x09 else if i = 319 then 0xe0 else 0

/-- What `ufs_rpmb_compute_mac` computes from the key and the authenticated bytes. -/
def macOf (data : List UInt8) : Digest :=
  outDigest (transformAll 5 (fun i j => macMessage data (i * 64 + j)) initState)

def rpmbComputeMac (key : Digest) (f : RpmbFrame) : Digest := macOf (key.bytes ++ f.authenticated)

/-- One compression with the short padding gives what two compressions with the padding of SHA-256
give, after the four whole blocks of `data`. -/
def PaddingsCollide (data : List UInt8) : Prop :=
  let h := hashBlocks 64 compressList initial (data.take 256)
  let rest := data.drop 256
  compressList h (rest ++ [0x80, 0, 0x09, 0xe0]) =
    compressList (compressList h (rest ++ [0x80, 0, 0, 0]))
      (List.replicate 56 0 ++ lengthBytes 2528)

section Mac

variable {data : List UInt8}

theorem RpmbFrame.length_authenticated (f : RpmbFrame) : f.authenticated.length = 284 := by
  simp only [authenticated, length_append, Codec.length_enc]
  rfl

theorem digest_injective : Function.Injective digest := by
  intro s s' h
  funext i
  apply UInt32.toNat_inj.mp
  have hlt := (s i).toNat_lt
  have hlt' := (s' i).toNat_lt
  have hbyte : ∀ k (hk : k < 4), (s i).toNat / 2 ^ (8 * (3 - k)) % 256 =
      (s' i).toNat / 2 ^ (8 * (3 - k)) % 256 := by
    intro k hk
    have hdiv : (4 * i.val + k) / 4 = i.val := by omega
    have hmod : (4 * i.val + k) % 4 = k := by omega
    have hat := congrArg UInt8.toNat (congrFun h ⟨4 * i.val + k, by omega⟩)
    simp only [digest, hdiv, hmod, UInt8.toNat_ofNat'] at hat
    exact hat
  have h0 := hbyte 0 (by decide)
  have h1 := hbyte 1 (by decide)
  have h2 := hbyte 2 (by decide)
  have h3 := hbyte 3 (by decide)
  simp only [Nat.sub_zero, Nat.reduceMul, Nat.reduceSub, Nat.reducePow, Nat.div_one] at h0 h1 h2 h3
  omega

section

variable (hlen : data.length = 316)
include hlen

theorem transformAll_four :
    transformAll 4 (fun i j => macMessage data (i * 64 + j)) initState =
      hashBlocks 64 compressList initial (data.take 256) := by
  have htake : (data.take 256).length = 256 := by
    rw [length_take, hlen]
    rfl
  refine transformAll_eq (by rw [htake]) fun i hi j hj => ?_
  rw [macMessage, if_pos (by omega), getD_eq_getElem?_getD, getD_eq_getElem?_getD,
    getElem?_take_of_lt (by omega), Nat.mul_comm]

theorem macOf_eq : macOf data =
    digest (compressList (hashBlocks 64 compressList initial (data.take 256))
      (data.drop 256 ++ [0x80, 0, 0x09, 0xe0])) := by
  have hlast : ∀ k < 4, macMessage data (316 + k) = [0x80, 0, 0x09, 0xe0].getD k 0 := by
    intro k hk
    obtain rfl | rfl | rfl | rfl : k = 0 ∨ k = 1 ∨ k = 2 ∨ k = 3 := by omega
    all_goals rfl
  have hfifth : transformAll 5 (fun i j => macMessage data (i * 64 + j)) initState =
      sha256Transform (transformAll 4 (fun i j => macMessage data (i * 64 + j)) initState)
        fun j => macMessage data (4 * 64 + j) := by
    rw [transformAll, transformAll, range_succ, foldl_append]
    rfl
  have hkept : (data.drop 256).length = 60 := by
    rw [length_drop, hlen]
  rw [macOf, outDigest_eq, hfifth, transformAll_four hlen, sha256Transform_eq, compressList]
  refine congrArg digest (compress_congr fun j hj => ?_)
  by_cases hj60 : j < 60
  · rw [macMessage, if_pos (by omega), getD_append _ _ _ _ (by omega),
      getD_eq_getElem?_getD, getD_eq_getElem?_getD, getElem?_drop]
  · rw [show 4 * 64 + j = 316 + (j - 60) by omega, hlast (j - 60) (by omega),
      getD_append_right _ _ _ _ (by omega), hkept]

theorem sha256_eq : sha256 data =
    digest (compressList (compressList (hashBlocks 64 compressList initial (data.take 256))
      (data.drop 256 ++ [0x80, 0, 0, 0])) (replicate 56 0 ++ lengthBytes 2528)) := by
  have htake : (data.take 256).length = 256 := by
    rw [length_take, hlen]
    rfl
  have hkept : (data.drop 256).length = 60 := by
    rw [length_drop, hlen]
  have habsorb : absorb 64 compressList (initial, []) data =
      (hashBlocks 64 compressList initial (data.take 256), data.drop 256) := by
    have hfirst := absorb_initial (data.take 256)
    rw [htake, drop_of_length_le (by omega)] at hfirst
    rw [← take_append_drop 256 data, absorb_append, hfirst, absorb_short (by simp; omega)]
    simp
  rw [sha256, hashBlocks_pad habsorb, hkept, hlen]
  rfl

theorem macOf_eq_sha256_iff : macOf data = sha256 data ↔ PaddingsCollide data := by
  rw [macOf_eq hlen, sha256_eq hlen]
  exact digest_injective.eq_iff

end

end Mac

/-- The MACs of the driver and of the installer are the SHA-256 digest of the key and the
authenticated bytes exactly on those inputs where the compression of the one padding meets that of
the other. -/
theorem mac_is_sha256_iff (key : Digest) (f : RpmbFrame) :
    (ufsRpmbComputeMac macOf key f = sha256 (key.bytes ++ f.authenticated) ∧
      rpmbComputeMac key f = sha256 (key.bytes ++ f.authenticated)) ↔
    PaddingsCollide (key.bytes ++ f.authenticated) := by
  have hlen : (key.bytes ++ f.authenticated).length = 316 := by
    rw [length_append, Digest.length_bytes, f.length_authenticated]
  exact (and_self_iff).trans (macOf_eq_sha256_iff hlen)

section Zeros

variable {b : List UInt8} {w s t : List UInt32}

def stateOf (l : List UInt32) : Fin 8 → UInt32 := fun i => l.getD i 0

theorem stateOf_map_finRange (f : Fin 8 → UInt32) : stateOf ((finRange 8).map f) = f := by
  funext i
  rw [stateOf, getD_eq_getElem?_getD, getElem?_map, getElem?_eq_getElem (by simp), getElem_finRange]
  rfl

def transformWords (w s : List UInt32) : List UInt32 :=
  let v := (List.range 64).foldl (round w) (Vars.ofWords (stateOf s))
  (List.finRange 8).map fun i => stateOf s i + v.words i

theorem compressList_of_words (hw : words (fun j => b.getD j 0) = w)
    (ht : transformWords w s = t) : compressList (stateOf s) b = stateOf t := by
  rw [compressList, ← sha256Transform_eq, sha256Transform, hw, ← ht, transformWords,
    stateOf_map_finRange]

theorem words_zeros :
    words (fun j => (replicate 64 (0 : UInt8)).getD j 0) = replicate 64 0 := by
  decide +kernel

theorem compressList_zeros (ht : transformWords (replicate 64 0) s = t) :
    compressList (stateOf s) (replicate 64 0) = stateOf t :=
  compressList_of_words words_zeros ht

theorem hashBlocks_zeros : hashBlocks 64 compressList initial (replicate 256 0) =
    stateOf [2993125786, 3452828946, 2370146888, 3033738195, 1072247226, 1323180247, 1732583662,
      3157828124] := by
  have hblock : ∀ i < 4, block 64 (replicate 256 (0 : UInt8)) i = replicate 64 0 := by
    decide
  have h1 : compressList initial (replicate 64 0) = stateOf [3663108286, 398046313,
      1647531929, 2006957770, 2363872401, 3235013187, 3137272298, 406301144] :=
    compressList_zeros (s := [0x6a09e667, 0xbb67ae85, 0x3c6ef372, 0xa54ff53a, 0x510e527f,
      0x9b05688c, 0x1f83d9ab, 0x5be0cd19]) (by decide +kernel)
  have h2 : compressList (stateOf [3663108286, 398046313, 1647531929, 2006957770, 2363872401,
      3235013187, 3137272298, 406301144]) (replicate 64 0) = stateOf [1753322530, 427712285,
      3703720195, 2823132263, 2087222896, 476200146, 2194495960, 3856981803] :=
    compressList_zeros (by decide +kernel)
  have h3 : compressList (stateOf [1753322530, 427712285, 3703720195, 2823132263, 2087222896,
      476200146, 2194495960, 3856981803]) (replicate 64 0) = stateOf [3900125012, 916005393,
      2860375374, 1682130322, 2832640372, 623511342, 345115685, 886862940] :=
    compressList_zeros (by decide +kernel)
  have h4 : compressList (stateOf [3900125012, 916005393, 2860375374, 1682130322, 2832640372,
      623511342, 345115685, 886862940]) (replicate 64 0) = stateOf [2993125786, 3452828946,
      2370146888, 3033738195, 1072247226, 1323180247, 1732583662, 3157828124] :=
    compressList_zeros (by decide +kernel)
  rw [hashBlocks, length_replicate, show range (256 / 64) = [0, 1, 2, 3] from rfl,
    foldl_cons, foldl_cons, foldl_cons, foldl_cons, foldl_nil,
    hblock 0 (by decide), hblock 1 (by decide), hblock 2 (by decide), hblock 3 (by decide),
    h1, h2, h3, h4]

theorem not_paddingsCollide_zeros : ¬ PaddingsCollide (replicate 316 0) := by
  intro h
  have hcode : compressList (stateOf [2993125786, 3452828946, 2370146888, 3033738195, 1072247226,
      1323180247, 1732583662, 3157828124]) (replicate 60 0 ++ [0x80, 0, 0x09, 0xe0]) =
      stateOf [386417004, 3695827316, 2579071998, 545700507, 81310601, 3296712124, 762022021,
        4192390962] := compressList_of_words rfl (by decide +kernel)
  have hfifth : compressList (stateOf [2993125786, 3452828946, 2370146888, 3033738195, 1072247226,
      1323180247, 1732583662, 3157828124]) (replicate 60 0 ++ [0x80, 0, 0, 0]) =
      stateOf [3157201980, 93221198, 908301937, 1974881983, 235315963, 1788357661, 575620045,
        73891292] := compressList_of_words rfl (by decide +kernel)
  have hsixth : compressList (stateOf [3157201980, 93221198, 908301937, 1974881983, 235315963,
      1788357661, 575620045, 73891292]) (replicate 56 0 ++ lengthBytes 2528) =
      stateOf [2013448541, 790290036, 1838626058, 417185755, 2673602088, 54749463, 2748267882,
        1750743655] := compressList_of_words rfl (by decide +kernel)
  rw [PaddingsCollide, take_replicate, drop_replicate, Nat.min_eq_left (by decide),
    hashBlocks_zeros, hcode, hfifth, hsixth] at h
  exact absurd (congrFun h 0) (by decide)

end Zeros

/-- The MAC of the frame of zeros under the key of zeros is not its SHA-256 digest. -/
theorem zero_frame_mac_differs :
    let key : Digest := fun _ => 0
    let f : RpmbFrame := ⟨fun _ => 0, fun _ => 0, fun _ => 0, 0, 0, 0, 0, 0⟩
    ufsRpmbComputeMac macOf key f ≠ sha256 (key.bytes ++ f.authenticated) ∧
      rpmbComputeMac key f ≠ sha256 (key.bytes ++ f.authenticated) := by
  intro key f
  have hdata : key.bytes ++ f.authenticated = replicate 316 0 := by decide +kernel
  have hne : macOf (key.bytes ++ f.authenticated) ≠ sha256 (key.bytes ++ f.authenticated) := by
    rw [hdata, Ne, macOf_eq_sha256_iff (length_replicate ..)]
    exact not_paddingsCollide_zeros
  exact ⟨hne, hne⟩

end Six.Ufs
