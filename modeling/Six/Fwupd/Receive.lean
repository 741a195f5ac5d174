import Six.Hash.Streaming

/-! A firmware image sent in chunks.  The receiver is a function of the bytes that have arrived. -/

namespace Six.Fwupd

open Lib Sha256 BlockHash Hash List UInt32 StreamState Sha256Ctx

variable (compress : Compress)

/-- The chunks are written one behind the other, the first one at `offset`. -/
def StreamState.writeChunks (st : StreamState) : UInt32 → List (List UInt8) → Option StreamState
  | _, [] => some st
  | offset, chunk :: chunks =>
    let len := UInt32.ofNat chunk.length
    (st.writeChunk compress offset (some fun i => chunk.getD i 0) len).bind fun st =>
      st.writeChunks (offset + len) chunks

/-- The image is sent from offset 0 on and then validated.  `none`: a chunk was refused. -/
def StreamState.sendImage (st : StreamState) (deviceId : List UInt8) (maxVerLen : Nat)
    (chunks : List (List UInt8)) : Option (Option Validated × StreamState) :=
  (st.writeChunks compress 0 chunks).map fun st =>
    st.validateAndFinalize compress deviceId maxVerLen

def headOf (all : List UInt8) (i : Nat) : UInt8 := if i < 256 then all.getD i 0 else 0

def StreamState.noted (st : StreamState) (all : List UInt8) : StreamState :=
  { st with
    hdrBuf := headOf all
    hdrCaptured := UInt32.ofNat (min all.length 256)
    nonzeroBytes := UInt32.ofNat (all.countP (· ≠ 0)) }

def StreamState.holding (st : StreamState) (all : List UInt8) : StreamState :=
  { hdrBuf := headOf all
    hdrCaptured := UInt32.ofNat (min all.length 256)
    stagedLen := UInt32.ofNat all.length
    nonzeroBytes := UInt32.ofNat (all.countP (· ≠ 0))
    fullSha := st.fullSha.init.update compress all
    codeSha := st.codeSha.init.update compress (all.drop 160) }

section Steps

variable {compress} {st : StreamState} {all chunk : List UInt8}

theorem headOf_append_singleton (b : UInt8) (i : Nat) : headOf (all ++ [b]) i =
    if all.length < 256 ∧ i = all.length then b else headOf all i := by
  rcases Nat.lt_trichotomy i all.length with hi | hi | hi
  · rw [if_neg (by omega), headOf, headOf, getD_append _ _ _ _ hi]
  · subst hi
    have hb : (all ++ [b]).getD all.length 0 = b := by
      rw [getD_append_right _ _ _ _ (Nat.le_refl _), Nat.sub_self]
      rfl
    have hnone : all.getD all.length 0 = 0 := getD_eq_default _ _ (Nat.le_refl _)
    rw [headOf, headOf, hb, hnone]
    by_cases h256 : all.length < 256
    · rw [if_pos h256, if_pos ⟨h256, rfl⟩]
    · rw [if_neg h256, if_neg (fun h => h256 h.1), if_neg h256]
  · rw [if_neg (by omega), headOf, headOf, getD_eq_default _ _ (by simp; omega),
      getD_eq_default _ _ (by omega)]

theorem StreamState.note_noted (hall : all.length < 2 ^ 32) (b : UInt8) :
    (st.noted all).note (ofNat all.length) b = st.noted (all ++ [b]) := by
  have hpos : (ofNat all.length).toNat = all.length := by
    rw [toNat_ofNat']
    omega
  have hin : ofNat all.length < fwupdHdrInspectLen ↔ all.length < 256 := by
    rw [lt_iff_toNat_lt, hpos]
    rfl
  have hcount : ofNat ((all ++ [b]).countP (· ≠ 0)) =
      if b ≠ 0 then ofNat (all.countP (· ≠ 0)) + 1 else ofNat (all.countP (· ≠ 0)) := by
    rw [countP_append, countP_singleton, ofNat_add]
    by_cases hb : b = 0
    · simp [hb]
    · simp [hb]
  have hhead : headOf (all ++ [b]) = fun i =>
      if all.length < 256 ∧ i = all.length then b else headOf all i :=
    funext (headOf_append_singleton b)
  have hcaptured : ofNat (min (all ++ [b]).length 256) =
      if all.length < 256 then
        if ofNat all.length + 1 > ofNat (min all.length 256)
        then ofNat all.length + 1 else ofNat (min all.length 256)
      else ofNat (min all.length 256) := by
    rw [length_append, length_singleton]
    split
    · rename_i h256
      have hnext : ofNat all.length + 1 = ofNat (all.length + 1) := by
        rw [ofNat_add]
        rfl
      rw [Nat.min_eq_left (by omega), Nat.min_eq_left (by omega), hnext, if_pos]
      rw [gt_iff_lt, lt_iff_toNat_lt, toNat_ofNat', toNat_ofNat']
      omega
    · rename_i h256
      rw [Nat.min_eq_right (by omega), Nat.min_eq_right (by omega)]
  unfold note noted
  rw [hhead, hcaptured, hcount]
  by_cases h256 : all.length < 256
  · rw [if_pos (hin.mpr h256)]
    by_cases hb : b = 0
    · simp [hb, h256, hpos]
    · simp [hb, h256, hpos]
  · rw [if_neg (fun h => h256 (hin.mp h))]
    by_cases hb : b = 0
    · simp [hb, h256]
    · simp [hb, h256]

theorem StreamState.foldl_note (st : StreamState) (data : Nat → UInt8)
    (hlen : all.length + k < 2 ^ 32) :
    (range k).foldl (fun st i => st.note (ofNat all.length + ofNat i) (data i))
      (st.noted all) = st.noted (all ++ (range k).map data) := by
  induction k with
  | zero => rw [range_zero, foldl_nil, map_nil, append_nil]
  | succ k ih =>
    have hpos : ofNat all.length + ofNat k = ofNat (all ++ (range k).map data).length := by
      rw [length_append, length_map, length_range, ofNat_add]
    have hroom : (all ++ (range k).map data).length < 2 ^ 32 := by
      rw [length_append, length_map, length_range]
      omega
    rw [range_succ, foldl_append, ih (by omega), foldl_cons, foldl_nil, hpos,
      note_noted hroom, map_append, append_assoc]
    rfl

theorem map_getD_range (hlen : chunk.length < 2 ^ 32) :
    (range (ofNat chunk.length).toNat).map (fun i => chunk.getD i 0) = chunk := by
  rw [toNat_ofNat', Nat.mod_eq_of_lt hlen]
  refine ext_getElem (by simp) fun i hi hi' => ?_
  rw [getElem_map, getElem_range, getD_eq_getElem _ _ hi']

variable {s : StreamState} {offset len : UInt32} {chunks : List (List UInt8)} {data : Nat → UInt8}

/-- A chunk behind the bytes `all`: `s` is a receiver that holds them, or `all` is empty and the
chunk starts a new image. -/
theorem StreamState.writeChunk_eq
    (hstart : (if offset = 0 then s.restart else s) = st.holding compress all)
    (hoffset : offset = ofNat all.length) (hok : offset = 0 ∨ offset = s.stagedLen)
    (hne : len ≠ 0) (hlen : all.length + len.toNat < 2 ^ 32) :
    s.writeChunk compress offset (some data) len =
      some (st.holding compress (all ++ (range len.toNat).map data)) := by
  have hoff : offset.toNat = all.length := by
    rw [hoffset, toNat_ofNat']
    omega
  have hloop : (range len.toNat).foldl
      (fun st i => st.note (offset + ofNat i) (data i)) (st.holding compress all) =
      (st.holding compress all).noted (all ++ (range len.toNat).map data) := by
    rw [hoffset]
    exact (st.holding compress all).foldl_note data hlen
  have hbehind : offset + len > binHdrSize ↔ 160 < all.length + len.toNat := by
    rw [gt_iff_lt, lt_iff_toNat_lt, UInt32.toNat_add, hoff, Nat.mod_eq_of_lt hlen]
    rfl
  unfold writeChunk
  dsimp only
  rw [if_neg hne, if_neg (by rintro ⟨h0, h1⟩; exact hok.elim h0 h1), hstart, hloop]
  generalize hchunk : (range len.toNat).map data = chunk
  have hnat : len.toNat = chunk.length := by rw [← hchunk, length_map, length_range]
  refine congrArg some ?_
  have hstaged : (st.holding compress all).stagedLen + len = ofNat (all ++ chunk).length := by
    rw [length_append, ofNat_add, ← hnat, UInt32.ofNat_toNat]
    rfl
  have hfull : (st.holding compress all).fullSha.update compress chunk =
      st.fullSha.init.update compress (all ++ chunk) :=
    (update_append ..).symm
  have hstartCode : (if offset ≥ binHdrSize then 0 else binHdrSize - offset).toNat =
      160 - all.length := by
    have hge : offset ≥ binHdrSize ↔ 160 ≤ all.length := by
      rw [ge_iff_le, le_iff_toNat_le, hoff]
      rfl
    split
    · rename_i h
      have := hge.mp h
      rw [UInt32.toNat_zero]
      omega
    · rename_i h
      have hlt : ¬ 160 ≤ all.length := fun h' => h (hge.mpr h')
      have hsize : binHdrSize.toNat = 160 := rfl
      rw [UInt32.toNat_sub_of_le _ _ (by rw [UInt32.le_iff_toNat_le, hoff, hsize]; omega), hoff,
        hsize]
  have hcode : (st.holding compress all).codeSha.update compress
      (chunk.drop (160 - all.length)) =
      st.codeSha.init.update compress ((all ++ chunk).drop 160) := by
    rw [drop_append, update_append]
    rfl
  by_cases h160 : 160 < all.length + len.toNat
  · rw [if_pos (hbehind.mpr h160), hstartCode]
    simp only [noted, hfull, hcode, hstaged]
    rfl
  · have hnothing : (st.holding compress all).codeSha =
        st.codeSha.init.update compress ((all ++ chunk).drop 160) := by
      rw [← hcode, drop_of_length_le (by omega), update_nil]
    rw [if_neg (fun h => h160 (hbehind.mp h))]
    simp only [noted, hfull, hnothing, hstaged]
    rfl

theorem StreamState.writeChunk_first (st : StreamState) (hne : len ≠ 0) :
    st.writeChunk compress 0 (some data) len =
      some (st.holding compress ((range len.toNat).map data)) := by
  have hrestart : st.restart = st.holding compress [] := by
    unfold restart holding
    rw [drop_nil, update_nil, update_nil]
    congr 1
    funext i
    rw [headOf, getD_nil, ite_self]
  have hstart : (if (0 : UInt32) = 0 then st.restart else st) = st.holding compress [] :=
    (if_pos rfl).trans hrestart
  refine writeChunk_eq hstart rfl (.inl rfl) hne ?_
  rw [length_nil, Nat.zero_add]
  exact len.toNat_lt

theorem ofNat_length_ne_zero (hchunk : chunk ≠ []) (hlen : chunk.length < 2 ^ 32) :
    ofNat chunk.length ≠ 0 := by
  intro h
  have hpositive : 0 < chunk.length := length_pos_iff.mpr hchunk
  have hnat := congrArg toNat h
  rw [toNat_ofNat', UInt32.toNat_zero] at hnat
  omega

theorem StreamState.writeChunks_holding (hall : all ≠ []) (hchunks : ∀ chunk ∈ chunks, chunk ≠ [])
    (hlen : all.length + chunks.flatten.length < 2 ^ 32) :
    (st.holding compress all).writeChunks compress (ofNat all.length) chunks =
      some (st.holding compress (all ++ chunks.flatten)) := by
  induction chunks generalizing all with
  | nil => rw [writeChunks, flatten_nil, append_nil]
  | cons chunk chunks ih =>
    rw [flatten_cons, length_append] at hlen
    have hne := ofNat_length_ne_zero hall (by omega)
    have hlast := ofNat_length_ne_zero (hchunks chunk (mem_cons_self ..)) (by omega)
    have hfits : all.length + (ofNat chunk.length).toNat < 2 ^ 32 := by
      rw [toNat_ofNat']
      omega
    have hstart : (if ofNat all.length = 0 then (st.holding compress all).restart
        else st.holding compress all) = st.holding compress all := if_neg hne
    have hroom : (all ++ chunk).length + chunks.flatten.length < 2 ^ 32 := by
      rw [length_append]
      omega
    have hrest := ih (append_ne_nil_of_left_ne_nil hall chunk)
      (fun c hc => hchunks c (mem_cons_of_mem _ hc)) hroom
    rw [length_append, ofNat_add, append_assoc] at hrest
    rw [writeChunks, writeChunk_eq hstart rfl (.inr rfl) hlast hfits, map_getD_range (by omega),
      Option.bind_some, hrest, flatten_cons]

theorem StreamState.writeChunks_eq (st : StreamState) (hsome : chunks ≠ [])
    (hchunks : ∀ chunk ∈ chunks, chunk ≠ []) (hlen : chunks.flatten.length < 2 ^ 32) :
    st.writeChunks compress 0 chunks = some (st.holding compress chunks.flatten) := by
  cases chunks with
  | nil => exact absurd rfl hsome
  | cons chunk chunks =>
    rw [flatten_cons, length_append] at hlen
    have hne := hchunks chunk (mem_cons_self ..)
    rw [writeChunks, writeChunk_first st (ofNat_length_ne_zero hne (by omega)),
      map_getD_range (by omega), Option.bind_some, UInt32.zero_add,
      writeChunks_holding hne (fun c hc => hchunks c (mem_cons_of_mem _ hc)) hlen,
      flatten_cons]

end Steps

section Verdict

variable {st : StreamState} {img deviceId : List UInt8} {maxVerLen : Nat} {v : Validated}
  {chunks : List (List UInt8)}

def imageWord (img : List UInt8) (off : Nat) : UInt32 := hdrWord (fun i => img.getD i 0) off

structure HeaderMatches (img deviceId : List UInt8) : Prop where
  deviceId : ∀ i < 24, i ≤ deviceId.length → img.getD (28 + i) 0 = (deviceId ++ [0]).getD i 0
  codeLen : 160 + (imageWord img 108).toNat = img.length
  codeSha : ∀ i : Fin 32, img.getD (112 + i) 0 = sha256 (img.drop 160) i

theorem headOf_of_lt (hi : i < 256) : headOf img i = img.getD i 0 := if_pos hi

theorem hdrWord_headOf (hoff : off + 4 ≤ 256) : hdrWord (headOf img) off = imageWord img off := by
  unfold imageWord hdrWord
  congr 2
  refine map_congr_left fun i hi => ?_
  rw [mem_range] at hi
  exact headOf_of_lt (by omega)

theorem getD_of_textAt (h : textAt hdr text off = true) (hi : i ≤ text.length) :
    hdr (off + i) = (text ++ [0]).getD i 0 := by
  induction text generalizing off i with
  | nil =>
    obtain rfl : i = 0 := by simpa using hi
    simpa [textAt] using h
  | cons c cs ih =>
    rw [textAt, Bool.and_eq_true, beq_iff_eq] at h
    cases i with
    | zero => exact h.1
    | succ i =>
      have hrest := ih h.2 (i := i) (by simpa using hi)
      rw [Nat.add_assoc, Nat.add_comm 1 i] at hrest
      exact hrest

theorem codeSha_holding (hlen : img.length < 2 ^ 32) :
    ((st.holding fwupdSha256Block img).codeSha.final fwupdSha256Block).1 =
      sha256 (img.drop 160) := by
  refine FwupdAt.final (FwupdAt.init st.codeSha).update ?_ (by rw [length_drop]; omega)
  exact FwupdAt.totalLen_update.trans (UInt32.zero_add _)

theorem toNat_hdrCaptured_holding :
    (st.holding fwupdSha256Block img).hdrCaptured.toNat = min img.length 256 := by
  change (ofNat (min img.length 256)).toNat = _
  rw [toNat_ofNat']
  omega

theorem StreamState.isSome_validateAndFinalize_iff :
    (st.validateAndFinalize compress deviceId maxVerLen).1.isSome = true ↔
      ¬ (st.stagedLen < 64 ∨ st.nonzeroBytes < 16) ∧
      (st.hdrCaptured ≥ binHdrSize ∧ hdrWord st.hdrBuf 4 = fwupdBinMagic →
        textAt st.hdrBuf deviceId 28 = true ∧ hdrWord st.hdrBuf 108 ≠ 0 ∧
        binHdrSize + hdrWord st.hdrBuf 108 = st.stagedLen ∧
        ∀ i : Fin 32, (st.codeSha.final compress).1 i = st.hdrBuf (112 + i)) := by
  unfold validateAndFinalize
  by_cases hsmall : st.stagedLen < 64 ∨ st.nonzeroBytes < 16
  · simp [hsmall]
  · rw [if_neg hsmall]
    dsimp only
    by_cases hmagic : st.hdrCaptured ≥ binHdrSize ∧ hdrWord st.hdrBuf 4 = fwupdBinMagic
    · rw [if_pos hmagic]
      by_cases hfields : !textAt st.hdrBuf deviceId 28 ∨ hdrWord st.hdrBuf 108 = 0 ∨
          binHdrSize + hdrWord st.hdrBuf 108 ≠ st.stagedLen
      · rw [if_pos hfields]
        simp only [Bool.not_eq_true'] at hfields
        simp only [Option.isSome_none, Bool.false_eq_true, false_iff, not_and]
        intro _ h
        obtain ⟨htext, hcode, hsum, -⟩ := h hmagic
        rw [htext] at hfields
        exact hfields.elim (fun h => by cases h) fun h => h.elim hcode fun h => h hsum
      · rw [if_neg hfields]
        simp only [Bool.not_eq_true', not_or, Bool.not_eq_false, Decidable.not_not] at hfields
        split
        · rename_i hsha
          simp only [all_eq_true, beq_iff_eq] at hsha
          simp only [Option.isSome_some, true_iff]
          exact ⟨hsmall, fun _ => ⟨hfields.1, hfields.2.1, hfields.2.2,
            fun i => hsha i (mem_finRange i)⟩⟩
        · rename_i hsha
          simp only [all_eq_true, beq_iff_eq] at hsha
          simp only [Option.isSome_none, Bool.false_eq_true, false_iff, not_and]
          intro _ h
          exact hsha fun i _ => (h hmagic).2.2.2 i
    · rw [if_neg hmagic]
      simp only [Option.isSome_some, true_iff]
      exact ⟨hsmall, fun h => absurd h hmagic⟩

theorem headerMatches_of_accepted (hlen : img.length < 2 ^ 32) (h160 : 160 ≤ img.length)
    (hmagic : imageWord img 4 = fwupdBinMagic)
    (hacc : ((st.holding fwupdSha256Block img).validateAndFinalize fwupdSha256Block deviceId
      maxVerLen).1.isSome = true) : HeaderMatches img deviceId := by
  have hcaptured : (st.holding fwupdSha256Block img).hdrCaptured ≥ binHdrSize := by
    rw [ge_iff_le, le_iff_toNat_le, toNat_hdrCaptured_holding]
    exact Nat.le_min.mpr ⟨h160, by decide⟩
  have hchecks := (isSome_validateAndFinalize_iff _).mp hacc
  obtain ⟨htext, -, hstaged, hsha⟩ :=
    hchecks.2 ⟨hcaptured, (hdrWord_headOf (by decide)).trans hmagic⟩
  refine ⟨fun i hi hid => ?_, ?_, fun i => ?_⟩
  · rw [← getD_of_textAt htext hid]
    exact (headOf_of_lt (by omega)).symm
  · -- a length that wraps around would be less than the header
    have hnat := congrArg toNat hstaged
    change (binHdrSize + hdrWord (headOf img) 108).toNat = (ofNat img.length).toNat at hnat
    have hsize : binHdrSize.toNat = 160 := rfl
    rw [hdrWord_headOf (by decide), UInt32.toNat_add, toNat_ofNat', hsize] at hnat
    have hword := (imageWord img 108).toNat_lt
    omega
  · rw [← codeSha_holding hlen, hsha i]
    exact (headOf_of_lt (by omega)).symm

theorem StreamState.sendImage_eq (hsome : chunks ≠ []) (hchunks : ∀ chunk ∈ chunks, chunk ≠ [])
    (hlen : chunks.flatten.length < 2 ^ 32) : st.sendImage compress deviceId maxVerLen chunks = some
      ((st.holding compress chunks.flatten).validateAndFinalize compress deviceId maxVerLen) := by
  rw [sendImage, st.writeChunks_eq hsome hchunks hlen]
  rfl

theorem StreamState.exists_of_isSome (hsome : chunks ≠ []) (hchunks : ∀ chunk ∈ chunks, chunk ≠ [])
    (hlen : chunks.flatten.length < 2 ^ 32)
    (hacc : ((st.holding compress chunks.flatten).validateAndFinalize compress deviceId
      maxVerLen).1.isSome = true) :
    ∃ v st', st.sendImage compress deviceId maxVerLen chunks = some (some v, st') := by
  obtain ⟨v, hv⟩ := Option.isSome_iff_exists.mp hacc
  refine ⟨v, (validateAndFinalize compress (holding compress st chunks.flatten) deviceId
    maxVerLen).2, ?_⟩
  rw [sendImage_eq compress hsome hchunks hlen, ← hv]

end Verdict

/-- An image is received in the same way however it is cut into chunks, and an image with a whole
header and the magic is accepted only if its header matches. -/
theorem sent_image_verdict (st : StreamState) (deviceId : List UInt8) (maxVerLen : Nat)
    (img : List UInt8) (hlen : img.length < 2 ^ 32) (chunks : List (List UInt8))
    (hsome : chunks ≠ []) (hchunks : ∀ chunk ∈ chunks, chunk ≠ []) (himg : chunks.flatten = img) :
    (∃ r, st.sendImage fwupdSha256Block deviceId maxVerLen chunks = some r ∧
      st.sendImage fwupdSha256Block deviceId maxVerLen [img] = some r) ∧
    ∀ v st', st.sendImage fwupdSha256Block deviceId maxVerLen chunks = some (some v, st') →
      160 ≤ img.length → imageWord img 4 = fwupdBinMagic → HeaderMatches img deviceId := by
  subst himg
  have hne : chunks.flatten ≠ [] := by
    obtain ⟨chunk, hmem⟩ := exists_mem_of_ne_nil _ hsome
    intro hnil
    exact hchunks chunk hmem (flatten_eq_nil_iff.mp hnil chunk hmem)
  have hone : st.sendImage fwupdSha256Block deviceId maxVerLen [chunks.flatten] = some
      ((st.holding fwupdSha256Block [chunks.flatten].flatten).validateAndFinalize fwupdSha256Block
        deviceId maxVerLen) :=
    sendImage_eq _ (by simp) (by simpa using hne) (by simpa using hlen)
  rw [flatten_singleton] at hone
  rw [sendImage_eq fwupdSha256Block hsome hchunks hlen]
  refine ⟨⟨_, rfl, hone⟩, fun v st' hsent h160 hmagic => ?_⟩
  have hacc := congrArg Prod.fst (Option.some.inj hsent)
  exact headerMatches_of_accepted hlen h160 hmagic (Option.isSome_of_eq_some hacc)

def ufsDeviceId : List UInt8 :=
  [0x53, 0x49, 0x58, 0x2d, 0x55, 0x46, 0x53, 0x2d, 0x46, 0x4c, 0x41, 0x53, 0x48]

def digestOfOne : List UInt8 :=
  [0x4b, 0xf5, 0x12, 0x2f, 0x34, 0x45, 0x54, 0xc5, 0x3b, 0xde, 0x2e, 0xbb, 0x8c, 0xd2, 0xb7, 0xe3,
    0xd1, 0x60, 0x0a, 0xd6, 0x31, 0xc3, 0x85, 0xa5, 0xd7, 0xcc, 0xe2, 0x3c, 0x77, 0x85, 0x45, 0x9a]

def smallImage : List UInt8 :=
  [0x26, 0, 0, 0xea, 0x53, 0x46, 0x57, 0x4d, 1, 0, 0, 0] ++ List.replicate 16 0 ++
    (ufsDeviceId ++ List.replicate 11 0) ++ List.replicate 40 0 ++ List.replicate 16 0 ++
    [1, 0, 0, 0] ++ digestOfOne ++ List.replicate 16 0 ++ [1]

theorem final_one : (finRange 32).map
    ((({} : Sha256Ctx).init.update fwupdSha256Block [1]).final fwupdSha256Block).1 =
      digestOfOne := by
  decide +kernel

set_option maxRecDepth 4096 in
/-- The image is accepted in two chunks that are cut inside the header. -/
theorem small_image_accepted :
    (∃ v st', ({} : StreamState).sendImage fwupdSha256Block ufsDeviceId 4
      [smallImage.take 100, smallImage.drop 100] = some (some v, st')) ∧
    HeaderMatches smallImage ufsDeviceId := by
  have hcut : [smallImage.take 100, smallImage.drop 100].flatten = smallImage := by decide
  have hchunks : ∀ chunk ∈ [smallImage.take 100, smallImage.drop 100], chunk ≠ [] := by decide
  have hacc : ∃ v st', ({} : StreamState).sendImage fwupdSha256Block ufsDeviceId 4
      [smallImage.take 100, smallImage.drop 100] = some (some v, st') := by
    refine exists_of_isSome _ (by simp) hchunks (by rw [hcut]; decide) ?_
    rw [hcut, isSome_validateAndFinalize_iff]
    have hcode (i : Fin 32) :
        ((({} : Sha256Ctx).init.update fwupdSha256Block [1]).final fwupdSha256Block).1 i =
          headOf smallImage (112 + i) := by
      have hlit : ∀ i : Fin 32,
          digestOfOne[i.val]? = some (headOf smallImage (112 + i)) := by decide
      have hget := hlit i
      rw [← final_one, getElem?_map, getElem?_eq_getElem (by simp),
        getElem_finRange] at hget
      exact Option.some.inj hget
    exact ⟨by decide, fun _ => ⟨by decide, by decide, by decide, hcode⟩⟩
  refine ⟨hacc, ?_⟩
  obtain ⟨v, st', hv⟩ := hacc
  exact (sent_image_verdict {} ufsDeviceId 4 smallImage (by decide) _ (by simp) hchunks hcut).2 v
    st' hv (by decide) (by decide)

/-- An image of 64 bytes with the magic is accepted, though its bytes at the place of the device id
are others. -/
theorem short_image_unchecked :
    let img : List UInt8 := [0, 0, 0, 0, 0x53, 0x46, 0x57, 0x4d] ++ replicate 56 1
    imageWord img 4 = fwupdBinMagic ∧ ¬ HeaderMatches img ufsDeviceId ∧
      ∃ v st', ({} : StreamState).sendImage fwupdSha256Block ufsDeviceId 4 [img] =
        some (some v, st') := by
  intro img
  refine ⟨by decide, fun h => absurd (h.deviceId 0 (by decide) (by decide)) (by decide), ?_⟩
  refine exists_of_isSome _ (by simp) (by decide) (by decide) ?_
  rw [isSome_validateAndFinalize_iff]
  exact ⟨by decide, fun h => absurd h.1 (by decide)⟩

end Six.Fwupd
