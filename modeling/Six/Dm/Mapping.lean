import Mathlib.Data.Set.Function
import Six.Dm.VerityCache
import Six.Dm.VerityLevels
import Six.Lib.Tiling

/-! How the tables of the device mapper map the sectors of a device: the legs of a striped line, the
line that serves a sector, `do_dm_request`, and the key of a crypt line. -/

namespace Six.Dm

open Lib Errno List UInt32 DmTargetSpec DmDevice

section Striped

variable {c n k : Nat}

def legOffset (c n : Nat) : Nat := n / c / 2 * c + n % c

def fromLeg (c : Nat) (second : Bool) (k : Nat) : Nat :=
  (2 * (k / c) + second.toNat) * c + k % c

theorem fromLeg_div (hc : 0 < c) (second : Bool) :
    fromLeg c second k / c = 2 * (k / c) + second.toNat := by
  rw [fromLeg, Nat.mul_comm, Nat.mul_add_div hc, Nat.div_eq_of_lt (Nat.mod_lt k hc), Nat.add_zero]

theorem fromLeg_mod (second : Bool) : fromLeg c second k % c = k % c := by
  rw [fromLeg, Nat.mul_add_mod_self_right, Nat.mod_mod]

theorem legOffset_fromLeg (hc : 0 < c) (second : Bool) :
    legOffset c (fromLeg c second k) = k ∧ fromLeg c second k / c % 2 = second.toNat := by
  have hbit := Bool.toNat_lt second
  have hhalf : (2 * (k / c) + second.toNat) / 2 = k / c := by omega
  rw [legOffset, fromLeg_div hc, fromLeg_mod, hhalf]
  exact ⟨Nat.div_add_mod' k c, by omega⟩

theorem fromLeg_legOffset (hc : 0 < c) (n : Nat) :
    fromLeg c (n / c % 2 == 1) (legOffset c n) = n := by
  have hmod := Nat.mod_lt n hc
  have hdiv : legOffset c n / c = n / c / 2 := by
    rw [legOffset, Nat.mul_comm, Nat.mul_add_div hc, Nat.div_eq_of_lt hmod, Nat.add_zero]
  have hrest : legOffset c n % c = n % c := by
    rw [legOffset, Nat.mul_add_mod_self_right, Nat.mod_mod]
  have hbit : (n / c % 2 == 1).toNat = n / c % 2 := by
    rcases Nat.mod_two_eq_zero_or_one (n / c) with h | h <;> rw [h] <;> rfl
  rw [fromLeg, hdiv, hrest, hbit, Nat.div_add_mod, Nat.div_add_mod']

theorem legOffset_lt (hc : 0 < c) (hn : n < 2 * (c * q)) : legOffset c n < c * q := by
  have hdiv : n / c < 2 * q := by
    rw [Nat.div_lt_iff_lt_mul hc, Nat.mul_assoc, Nat.mul_comm q c]
    exact hn
  have hmod := Nat.mod_lt n hc
  have hq : n / c / 2 + 1 ≤ q := by omega
  calc legOffset c n < n / c / 2 * c + c := by rw [legOffset]; omega
    _ = (n / c / 2 + 1) * c := (Nat.succ_mul _ c).symm
    _ ≤ q * c := Nat.mul_le_mul_right c hq
    _ = c * q := Nat.mul_comm q c

theorem fromLeg_lt (hc : 0 < c) (second : Bool) (hk : k < c * q) :
    fromLeg c second k < 2 * (c * q) := by
  have hdiv : k / c < q := by
    rw [Nat.div_lt_iff_lt_mul hc, Nat.mul_comm]
    exact hk
  have hbit := Bool.toNat_lt second
  have hmod := Nat.mod_lt k hc
  have hq : 2 * (k / c) + second.toNat + 1 ≤ 2 * q := by omega
  calc fromLeg c second k < (2 * (k / c) + second.toNat) * c + c := by rw [fromLeg]; omega
    _ = (2 * (k / c) + second.toNat + 1) * c := (Nat.succ_mul _ c).symm
    _ ≤ 2 * q * c := Nat.mul_le_mul_right c hq
    _ = 2 * (c * q) := by rw [Nat.mul_assoc, Nat.mul_comm q c]

end Striped

section

variable (t : DmTargetSpec)

def DmTargetSpec.chunk : UInt32 :=
  if t.chunkSectors ≠ 0 then t.chunkSectors else 8

def DmTargetSpec.secondLeg (relSec : UInt32) : Bool :=
  relSec / t.chunk % 2 ≠ 0

def DmTargetSpec.legDev (second : Bool) : UInt16 :=
  if second then t.bdev2 else t.bdev

def DmTargetSpec.legBase (second : Bool) : UInt32 :=
  if second then t.offsetSector2 else t.offsetSector

end

section Stripes

variable {t : DmTargetSpec} {relSec : UInt32}

theorem DmTargetSpec.secondLeg_eq : t.secondLeg relSec =
    (relSec.toNat / t.chunk.toNat % 2 == 1) := by
  have hiff : relSec / t.chunk % 2 ≠ 0 ↔ relSec.toNat / t.chunk.toNat % 2 = 1 := by
    rw [ne_eq, ← UInt32.toNat_inj]
    simp only [UInt32.toNat_mod, UInt32.toNat_div, UInt32.toNat_zero, reduceToNat]
    omega
  rw [secondLeg, Bool.eq_iff_iff, decide_eq_true_eq, beq_iff_eq]
  exact hiff

/-- `dm_process_sector` takes the device of the leg, and the offset of the sector in the leg counted
from the base of the leg. -/
theorem stripeOf_eq : stripeOf t relSec = (t.legDev (t.secondLeg relSec),
    t.legBase (t.secondLeg relSec) + ofNat (legOffset t.chunk.toNat relSec.toNat)) := by
  have hoff : relSec / t.chunk / 2 * t.chunk + relSec % t.chunk =
      ofNat (legOffset t.chunk.toNat relSec.toNat) := by
    rw [legOffset, ofNat_add, ofNat_mul, ← UInt32.toNat_mod, UInt32.ofNat_toNat, UInt32.ofNat_toNat]
    congr 2
    apply UInt32.toNat_inj.mp
    have hlt := relSec.toNat_lt
    have hle : relSec.toNat / t.chunk.toNat / 2 ≤ relSec.toNat :=
      (Nat.div_le_self _ 2).trans (Nat.div_le_self _ _)
    simp only [UInt32.toNat_div, reduceToNat, toNat_ofNat']
    generalize relSec.toNat / t.chunk.toNat / 2 = q at hle ⊢
    omega
  change (if relSec / t.chunk % 2 = 0 then _ else _) = _
  by_cases hleg : relSec / t.chunk % 2 = 0
  · have hfirst : t.secondLeg relSec = false := by simp [secondLeg, hleg]
    rw [if_pos hleg, hfirst, ← hoff, ← UInt32.add_assoc]
    rfl
  · have hsecond : t.secondLeg relSec = true := by simp [secondLeg, hleg]
    rw [if_neg hleg, hsecond, ← hoff, ← UInt32.add_assoc]
    rfl

/-- The sectors of a striped line fill the first half-length sectors of both legs, each once. -/
theorem stripes_bijective (t : DmTargetSpec) (hchunk : 1 ≤ t.chunkSectors.toNat)
    (hlen : 2 * t.chunkSectors.toNat ∣ t.numSectors.toNat) :
    Set.BijOn (fun relSec => (t.secondLeg relSec, (stripeOf t relSec).2))
      {relSec | relSec < t.numSectors}
      {leg | ∃ k < t.numSectors.toNat / 2, leg.2 = t.legBase leg.1 + UInt32.ofNat k} ∧
    ∀ relSec, (stripeOf t relSec).1 = t.legDev (t.secondLeg relSec) := by
  have hne : t.chunkSectors ≠ 0 := by
    rintro hzero
    rw [hzero] at hchunk
    exact absurd hchunk (by decide)
  have hpos : 0 < t.chunk.toNat := by
    rw [chunk, if_pos hne]
    exact hchunk
  obtain ⟨q, hq⟩ := hlen
  have hnum : t.numSectors.toNat = 2 * (t.chunk.toNat * q) := by
    rw [chunk, if_pos hne, hq, Nat.mul_assoc]
  have hbound := t.numSectors.toNat_lt
  have hhalf : t.numSectors.toNat / 2 = t.chunk.toNat * q := by omega
  refine ⟨⟨?_, ?_, ?_⟩, fun relSec => by rw [stripeOf_eq]⟩
  · intro relSec hrel
    have hlt : relSec.toNat < t.numSectors.toNat := lt_iff_toNat_lt.mp hrel
    refine ⟨legOffset t.chunk.toNat relSec.toNat, ?_, congrArg Prod.snd stripeOf_eq⟩
    rw [hhalf]
    exact legOffset_lt hpos (by omega)
  · intro relSec hrel relSec' hrel' heq
    have hlt : relSec.toNat < t.numSectors.toNat := lt_iff_toNat_lt.mp hrel
    have hlt' : relSec'.toNat < t.numSectors.toNat := lt_iff_toNat_lt.mp hrel'
    obtain ⟨hleg, hsec⟩ := Prod.mk.inj heq
    rw [stripeOf_eq, stripeOf_eq, hleg] at hsec
    -- offsets in a leg are below `2 ^ 31`, so that equal words come from equal offsets
    have hoff : legOffset t.chunk.toNat relSec.toNat = legOffset t.chunk.toNat relSec'.toNat := by
      have hword := congrArg toNat hsec
      have h1 := legOffset_lt hpos (hnum ▸ hlt)
      have h2 := legOffset_lt hpos (hnum ▸ hlt')
      simp only [UInt32.toNat_add, toNat_ofNat'] at hword
      omega
    apply UInt32.toNat_inj.mp
    rw [secondLeg_eq, secondLeg_eq] at hleg
    calc relSec.toNat = fromLeg t.chunk.toNat (relSec.toNat / t.chunk.toNat % 2 == 1)
          (legOffset t.chunk.toNat relSec.toNat) := (fromLeg_legOffset hpos _).symm
      _ = fromLeg t.chunk.toNat (relSec'.toNat / t.chunk.toNat % 2 == 1)
          (legOffset t.chunk.toNat relSec'.toNat) := by rw [hleg, hoff]
      _ = relSec'.toNat := fromLeg_legOffset hpos _
  · rintro ⟨second, sec⟩ ⟨k, hk, hsec⟩
    rw [hhalf] at hk
    have hlt := fromLeg_lt hpos second hk
    obtain ⟨hoff, hbit⟩ := legOffset_fromLeg (k := k) hpos second
    have hnat : (ofNat (fromLeg t.chunk.toNat second k)).toNat =
        fromLeg t.chunk.toNat second k := by
      rw [toNat_ofNat']
      omega
    have hleg : t.secondLeg (ofNat (fromLeg t.chunk.toNat second k)) = second := by
      rw [secondLeg_eq, hnat, hbit]
      cases second <;> rfl
    refine ⟨ofNat (fromLeg t.chunk.toNat second k), ?_, ?_⟩
    · change ofNat (fromLeg t.chunk.toNat second k) < t.numSectors
      rw [lt_iff_toNat_lt, hnat, hnum]
      exact hlt
    · refine Prod.ext hleg ?_
      change (stripeOf t _).2 = sec
      rw [stripeOf_eq, hleg, hnat, hoff]
      exact hsec.symm

def threeSectorChunks : DmTargetSpec where
  startSector := 0
  numSectors := 12
  type := .striped
  bdev2 := 1
  offsetSector := 100
  offsetSector2 := 0xfffffffe
  chunkSectors := 3

theorem three_sector_chunks_bijective :
    Set.BijOn (fun relSec => (threeSectorChunks.secondLeg relSec,
        (stripeOf threeSectorChunks relSec).2)) {relSec | relSec < 12}
      {leg | ∃ k < 6, leg.2 = threeSectorChunks.legBase leg.1 + UInt32.ofNat k} :=
  (stripes_bijective threeSectorChunks (by decide) (by decide)).1

end Stripes

/-- The sectors that a line covers, with the end of the line computed modulo `2^32`. -/
def DmTargetSpec.range (t : DmTargetSpec) : Range :=
  ⟨t.startSector.toNat, (t.startSector + t.numSectors).toNat⟩

theorem DmTargetSpec.covers_eq (t : DmTargetSpec) (sec : UInt32) :
    t.covers sec = t.range.has sec.toNat := by
  rw [Bool.eq_iff_iff, Range.has_iff, covers_iff, range, UInt32.toNat_add]

def tableEnd (table : List DmTargetSpec) : Nat :=
  table.foldr (fun t e => max t.range.hi e) 0

/-- The lines of a table that cover a sector lie end to end from sector 0 to the greatest end of a
line. -/
def EndToEnd (table : List DmTargetSpec) : Prop :=
  Range.Abut 0 (Range.inOrder (table.map DmTargetSpec.range)) (tableEnd table)

instance (table : List DmTargetSpec) : Decidable (EndToEnd table) :=
  inferInstanceAs (Decidable (Range.Abut ..))

section Table

variable {disk : Backing} {binSalt : Digest} {p : VerityParams} {s s' : DmState} {m : Fin 8}
  {t : DmTargetSpec}

theorem range_hi_le_tableEnd (h : t ∈ table) : t.range.hi ≤ tableEnd table := by
  induction table with
  | nil => exact absurd h not_mem_nil
  | cons u table ih =>
    rw [tableEnd, foldr_cons]
    obtain rfl | h := mem_cons.mp h
    · exact Nat.le_max_left ..
    · exact (ih h).trans (Nat.le_max_right ..)

theorem loadTarget_totalSectors (l : Loading) (t : DmTargetSpec) :
    (loadTarget disk binSalt l t).dev.totalSectors.toNat =
      max l.dev.totalSectors.toNat t.range.hi := by
  have hadd : (loadTarget disk binSalt l t).dev.totalSectors =
      (l.dev.addTarget t).totalSectors := by
    unfold loadTarget
    split <;> rfl
  rw [hadd, addTarget]
  split
  · rename_i hgt
    have hlt : l.dev.totalSectors.toNat < t.range.hi := lt_iff_toNat_lt.mp hgt
    exact (Nat.max_eq_right (Nat.le_of_lt hlt)).symm
  · rename_i hle
    have hge : t.range.hi ≤ l.dev.totalSectors.toNat :=
      Nat.le_of_not_lt fun hlt => hle (lt_iff_toNat_lt.mpr hlt)
    exact (Nat.max_eq_left hge).symm

theorem foldl_loadTarget_totalSectors (table : List DmTargetSpec) (l : Loading) :
    (table.foldl (loadTarget disk binSalt) l).dev.totalSectors.toNat =
      max l.dev.totalSectors.toNat (tableEnd table) := by
  induction table generalizing l with
  | nil => exact (Nat.max_zero _).symm
  | cons t table ih =>
    rw [foldl_cons, ih, loadTarget_totalSectors, Nat.max_assoc]
    rfl

theorem dmIocCreate_totalSectors (hm : dmCreateMinor s req = .ok m)
    (h : dmIocCreate disk binSalt s req = (0, s')) :
    (s'.devs m).totalSectors.toNat = tableEnd req.table := by
  rw [dmIocCreate, hm] at h
  obtain ⟨-, rfl⟩ := Prod.mk.inj h
  simp only [DmState.setDev, Function.update_self]
  exact (foldl_loadTarget_totalSectors req.table _).trans (Nat.zero_max _)

theorem findTarget_eq_some_iff {dev : DmDevice} :
    dev.findTarget sec = some (i, t) ↔ dev.targets[i]? = some t ∧ t.covers sec = true ∧
      ∀ j < i, ∀ u, dev.targets[j]? = some u → u.covers sec = false := by
  unfold findTarget
  cases hidx : dev.targets.findIdx? (·.covers sec) with
  | none =>
    constructor
    · intro h
      cases h
    · rintro ⟨hget, hcovers, -⟩
      have hnone := findIdx?_eq_none_iff.mp hidx t (mem_of_getElem? hget)
      exact absurd hcovers (by rw [hnone]; decide)
  | some k =>
    obtain ⟨hk, hcov, hbefore⟩ := findIdx?_eq_some_iff_getElem.mp hidx
    have hget : dev.targets[k]? = some dev.targets[k] := getElem?_eq_getElem hk
    simp only [hget, Option.map_some, Option.some.injEq, Prod.mk.injEq]
    constructor
    · rintro ⟨rfl, rfl⟩
      refine ⟨hget, hcov, fun j hj u hu => ?_⟩
      obtain ⟨hlt, rfl⟩ := List.getElem?_eq_some_iff.mp hu
      exact Bool.eq_false_iff.mpr (hbefore j hj)
    · rintro ⟨hi, hcovers, hfirst⟩
      obtain ⟨hilt, rfl⟩ := List.getElem?_eq_some_iff.mp hi
      have heq : k = i := by
        rcases Nat.lt_trichotomy k i with hlt | heq | hgt
        · exact absurd hcov (by rw [hfirst k hlt _ hget]; decide)
        · exact heq
        · exact absurd hcovers (hbefore i hgt)
      subst heq
      exact ⟨rfl, rfl⟩

end Table

/-- A request of the block layer: `sector`, and the buffers of its `current_nr_sectors`
sectors. -/
structure DmRequest where
  minor : Int
  cmd : Cmd
  sector : UInt32
  buffer : List Sector

/-- The loop of `do_dm_request` over the sectors of a request: whether every sector succeeded, the
buffers, and the state. -/
def dmSectors (disk : Backing) (p : VerityParams) (m : Fin 8) (cmd : Cmd) :
    DmState → UInt32 → List Sector → Bool × List Sector × DmState
  | s, _, [] => (true, [], s)
  | s, sec, buf :: rest =>
    let r := dmProcessSector disk p s m sec buf cmd
    if r.err ≠ 0 then (false, r.buf :: rest, r.state)
    else
      let after := dmSectors disk p m cmd r.state (sec + 1) rest
      (after.1, r.buf :: after.2.1, after.2.2)

def doDmRequest (disk : Backing) (p : VerityParams) (s : DmState) (rq : DmRequest) :
    Bool × List Sector × DmState :=
  match minor? rq.minor with
  | none => (false, rq.buffer, s)
  | some m =>
    let dev := s.devs m
    if !dev.active || dev.suspended then (false, rq.buffer, s)
    else if rq.cmd = .write ∧ dev.ro then (false, rq.buffer, s)
    else if rq.sector + UInt32.ofNat rq.buffer.length > dev.totalSectors then
      (false, rq.buffer, s)
    else dmSectors disk p m rq.cmd s rq.sector rq.buffer

/-- The two devices have the same lines, except for the counters, the same size and the same
key. -/
structure DmDevice.SameTable (dev dev' : DmDevice) : Prop where
  lines : dev.targets.map DmTargetSpec.uncounted = dev'.targets.map DmTargetSpec.uncounted
  total : dev.totalSectors = dev'.totalSectors
  key : dev.parsedKey = dev'.parsedKey

namespace DmDevice.SameTable

variable {dev dev' dev'' : DmDevice} {sec : UInt32} {t : DmTargetSpec}

theorem refl (dev : DmDevice) : dev.SameTable dev := ⟨rfl, rfl, rfl⟩

theorem trans (h : dev.SameTable dev') (h' : dev'.SameTable dev'') : dev.SameTable dev'' :=
  ⟨h.lines.trans h'.lines, h.total.trans h'.total, h.key.trans h'.key⟩

theorem getElem? (h : dev.SameTable dev') {i : Nat} (ht : dev.targets[i]? = some t) :
    ∃ t', dev'.targets[i]? = some t' ∧ t.uncounted = t'.uncounted := by
  have hmap := congrArg (·[i]?) h.lines
  simp only [getElem?_map, ht, Option.map_some] at hmap
  obtain ⟨t', ht', heq⟩ := Option.map_eq_some_iff.mp hmap.symm
  exact ⟨t', ht', heq.symm⟩

theorem symm (h : dev.SameTable dev') : dev'.SameTable dev :=
  ⟨h.lines.symm, h.total.symm, h.key.symm⟩

theorem counted (h : dev.targets[i]? = some t) (v : VerifyResult) :
    (dev.counted i t v).SameTable dev := by
  refine ⟨?_, rfl, rfl⟩
  obtain ⟨hlt, rfl⟩ := List.getElem?_eq_some_iff.mp h
  rw [counted, map_set, uncounted_count,
    ← getElem_map uncounted (h := by simpa using hlt), set_getElem_self]

end DmDevice.SameTable

theorem DmTargetSpec.covers_uncounted {t t' : DmTargetSpec} (h : t.uncounted = t'.uncounted)
    (sec : UInt32) : t.covers sec = t'.covers sec :=
  calc t.covers sec = t.uncounted.covers sec := rfl
    _ = t'.uncounted.covers sec := by rw [h]
    _ = t'.covers sec := rfl

section Requests

variable {disk : Backing} {p : VerityParams} {s : DmState} {m : Fin 8} {dev : DmDevice}
  {sec : UInt32}

theorem dmReadVerity_devs (disk : Backing) (p : VerityParams) (s : DmState) (m : Fin 8) (i : Nat)
    (t : DmTargetSpec) (relSec : UInt32)
    (buf : Sector) : (dmReadVerity disk p s m i t relSec buf).state.devs = s.devs ∨
      ∃ v, (dmReadVerity disk p s m i t relSec buf).state.devs =
        (s.setDev m ((s.devs m).counted i t v)).devs := by
  unfold dmReadVerity
  dsimp only
  split_ifs
  · exact .inl rfl
  · exact .inl rfl
  · exact .inr ⟨_, rfl⟩
  · exact .inr ⟨_, rfl⟩
  · exact .inr ⟨_, rfl⟩

theorem dmProcessSector_sameTable (s : DmState) (m m' : Fin 8) (sec : UInt32) (buf : Sector)
    (cmd : Cmd) :
    ((dmProcessSector disk p s m sec buf cmd).state.devs m').SameTable (s.devs m') := by
  by_cases hverity : ∃ i t, (s.devs m).findTarget sec = some (i, t) ∧ t.type = .verity ∧ cmd = .read
  · obtain ⟨i, t, hfind, htype, rfl⟩ := hverity
    rw [dmProcessSector_verity hfind htype]
    obtain hdevs | ⟨v, hdevs⟩ := dmReadVerity_devs disk p s m i t (sec - t.startSector) buf
    · rw [hdevs]
      exact .refl _
    · rw [hdevs]
      by_cases hm : m' = m
      · subst hm
        rw [setDev_devs_same]
        exact .counted (findTarget_getElem hfind) v
      · rw [setDev_devs_ne hm]
        exact .refl _
  · have hother : ∀ i t, (s.devs m).findTarget sec = some (i, t) → t.type = .verity →
        cmd = .write := by
      intro i t hfind htype
      cases cmd with
      | read => exact absurd ⟨i, t, hfind, htype, rfl⟩ hverity
      | write => rfl
    have hstate : ∃ time, (dmProcessSector disk p s m sec buf cmd).state =
        { s with time := time } := dmProcessSector_other s m sec buf cmd hother
    obtain ⟨time, hstate⟩ := hstate
    rw [hstate]
    exact .refl _

theorem dmProcessSector_uncovered (h : ∀ t ∈ (s.devs m).targets, t.covers sec = false) :
    dmProcessSector disk p s m sec buf cmd = ⟨-eio, buf, s⟩ := by
  have hnone : (s.devs m).findTarget sec = none := by
    unfold findTarget
    rw [findIdx?_eq_none_iff.mpr h]
  simp only [dmProcessSector, hnone]

theorem dmSectors_covered (hsame : (s.devs m).SameTable dev)
    (h : (dmSectors disk p m cmd s sec bufs).1 = true) (hk : k < bufs.length) :
    ∃ t ∈ dev.targets, t.covers (sec + ofNat k) = true := by
  induction bufs generalizing s sec k with
  | nil => exact absurd hk (Nat.not_lt_zero k)
  | cons buf rest ih =>
    rw [dmSectors] at h
    split at h
    · exact absurd h Bool.false_ne_true
    · rename_i hok
      cases k with
      | zero =>
        have hcovered : ∃ t ∈ (s.devs m).targets, t.covers sec = true := by
          by_contra hnone
          have hall : ∀ t ∈ (s.devs m).targets, t.covers sec = false := fun t ht =>
            Bool.eq_false_iff.mpr fun hcov => hnone ⟨t, ht, hcov⟩
          rw [dmProcessSector_uncovered hall] at hok
          exact hok (show (-eio : Int) ≠ 0 by decide)
        obtain ⟨t, ht, hcov⟩ := hcovered
        obtain ⟨i, hi⟩ := getElem?_of_mem ht
        obtain ⟨t', ht', heq⟩ := hsame.getElem? hi
        have hzero : sec + ofNat 0 = sec := UInt32.add_zero sec
        refine ⟨t', mem_of_getElem? ht', ?_⟩
        rw [hzero, ← covers_uncounted heq]
        exact hcov
      | succ k =>
        have hrest := ih ((dmProcessSector_sameTable s m m sec buf cmd).trans hsame) h
          (Nat.lt_of_succ_lt_succ hk)
        have hnext : sec + 1 + ofNat k = sec + ofNat (k + 1) := by
          rw [ofNat_add, UInt32.add_assoc, UInt32.add_comm 1]
          rfl
        rw [hnext] at hrest
        exact hrest

theorem doDmRequest_covered {rq : DmRequest} (hminor : rq.minor = m.val)
    (hsame : (s.devs m).SameTable dev) (h : (doDmRequest disk p s rq).1 = true)
    (hk : k < rq.buffer.length) :
    ∃ t ∈ dev.targets, t.covers (rq.sector + ofNat k) = true := by
  have hm : minor? rq.minor = some m := by
    rw [minor?, dif_pos (by omega)]
    congr
    omega
  rw [doDmRequest, hm] at h
  dsimp only at h
  split at h
  · exact absurd h Bool.false_ne_true
  split at h
  · exact absurd h Bool.false_ne_true
  split at h
  · exact absurd h Bool.false_ne_true
  exact dmSectors_covered hsame h hk

/-- For every accepted table: the first line that covers a sector serves it, and no other line; a
request succeeds only on sectors below the total size that some line covers; and every sector below
the total size is covered by exactly one line if and only if the lines lie end to end from
sector 0. -/
theorem created_table_serves_first {binSalt : Digest} {s s' : DmState} {req : DmIoctlReq}
    {m : Fin 8} (hm : dmCreateMinor s req = .ok m) (h : dmIocCreate disk binSalt s req = (0, s')) :
    (∀ sec i t, (s'.devs m).findTarget sec = some (i, t) ↔
      req.table[i]? = some t ∧ t.covers sec = true ∧
        ∀ j < i, ∀ u, req.table[j]? = some u → u.covers sec = false) ∧
    (∀ (disk : Backing) (p : VerityParams) (now : DmState) (rq : DmRequest),
      rq.minor = m.val → (now.devs m).SameTable (s'.devs m) →
      (doDmRequest disk p now rq).1 = true → ∀ k < rq.buffer.length,
        rq.sector + UInt32.ofNat k < (s'.devs m).totalSectors ∧
          ∃ t ∈ req.table, t.covers (rq.sector + UInt32.ofNat k) = true) ∧
    ((∀ sec < (s'.devs m).totalSectors, (s'.devs m).targets.countP (·.covers sec) = 1) ↔
      EndToEnd req.table) := by
  have htargets := dmIocCreate_targets hm h
  have htotal := dmIocCreate_totalSectors hm h
  refine ⟨fun sec i t => ?_, fun disk p now rq hminor hsame hok k hk => ?_, ?_⟩
  · rw [findTarget_eq_some_iff, htargets]
  · obtain ⟨t, ht, hcov⟩ := doDmRequest_covered hminor hsame hok hk
    rw [htargets] at ht
    refine ⟨?_, t, ht, hcov⟩
    rw [covers_eq, Range.has_iff] at hcov
    rw [lt_iff_toNat_lt, htotal]
    exact Nat.lt_of_lt_of_le hcov.2 (range_hi_le_tableEnd ht)
  · have hcount : ∀ sec : UInt32, (s'.devs m).targets.countP (·.covers sec) =
        (req.table.map DmTargetSpec.range).countP (·.has sec.toNat) := by
      intro sec
      rw [htargets, countP_map]
      exact countP_congr fun t _ => by rw [Function.comp, t.covers_eq]
    have hin : ∀ r ∈ req.table.map DmTargetSpec.range, r.hi ≤ tableEnd req.table := by
      intro r hr
      obtain ⟨t, ht, rfl⟩ := mem_map.mp hr
      exact range_hi_le_tableEnd ht
    rw [EndToEnd, ← Range.countP_eq_one_iff hin, ← htotal]
    constructor
    · intro hone x hx
      have hlt := (s'.devs m).totalSectors.toNat_lt
      have hnat : (ofNat x).toNat = x := by
        rw [toNat_ofNat']
        omega
      have hone := hone (ofNat x) (lt_iff_toNat_lt.mpr (by omega))
      rw [hcount, hnat] at hone
      exact hone
    · intro hone sec hsec
      rw [hcount]
      exact hone sec.toNat (lt_iff_toNat_lt.mp hsec)

def twoLineReq (t u : DmTargetSpec) : DmIoctlReq where
  minor := -1
  name := [0x76]
  numTargets := 2
  targets := [t, u]

def adjacentReq : DmIoctlReq :=
  twoLineReq ⟨8, 8, .linear, 3, 0, 0, 0, 0, 0, 0, 0, 0, [], fun _ => 0⟩
  ⟨0, 8, .zero, 0, 0, 0, 0, 0, 0, 0, 0, 0, [], fun _ => 0⟩

/-- Two lines of 8 sectors that share 4 sectors, or that leave 4 sectors between them. -/
def shiftedReq (start : UInt32) : DmIoctlReq :=
  twoLineReq ⟨0, 8, .linear, 3, 0, 0, 0, 0, 0, 0, 0, 0, [], fun _ => 0⟩
    ⟨start, 8, .zero, 0, 0, 0, 0, 0, 0, 0, 0, 0, [], fun _ => 0⟩

theorem adjacent_lines_serve_once :
    ∃ s', dmIocCreate sbDisk (fun _ => 0) dmInit adjacentReq = (0, s') ∧
      ∀ sec < (s'.devs 0).totalSectors, (s'.devs 0).targets.countP (·.covers sec) = 1 := by
  have hcreate : dmIocCreate sbDisk (fun _ => 0) dmInit adjacentReq =
    (0, (dmIocCreate sbDisk (fun _ => 0) dmInit adjacentReq).2) := rfl
  exact ⟨_, hcreate, (created_table_serves_first (m := 0) rfl hcreate).2.2.mpr (by decide)⟩

/-- Tables with overlapping lines and tables with gaps are accepted: of the lines at 0 and at 4 both
cover sector 4, and of the lines at 0 and at 12 none covers sector 8. -/
theorem overlap_and_gap_accepted :
    (∃ s', dmIocCreate sbDisk (fun _ => 0) dmInit (shiftedReq 4) = (0, s') ∧
      4 < (s'.devs 0).totalSectors ∧ (s'.devs 0).targets.countP (·.covers 4) = 2) ∧
    ∃ s', dmIocCreate sbDisk (fun _ => 0) dmInit (shiftedReq 12) = (0, s') ∧
      8 < (s'.devs 0).totalSectors ∧ (s'.devs 0).targets.countP (·.covers 8) = 0 :=
  ⟨⟨_, rfl, by decide, by decide⟩, _, rfl, by decide, by decide⟩

end Requests

/-- The key that the last crypt line of a table gives, or `key` when it has none. -/
def lastCryptKey (key : Fin 8 → UInt32) (table : List DmTargetSpec) : Fin 8 → UInt32 :=
  table.foldl (fun key t => if t.type = .crypt then dmDeriveKey t.key else key) key

/-- A sector that was written to a device below and is read right after it is read back, when both
accesses succeed. -/
def Backing.ReadsBack (disk : Backing) : Prop :=
  ∀ time bdev sec data, disk.write time bdev sec data = 0 →
    (disk.read (time + 1) bdev sec).err = 0 → (disk.read (time + 1) bdev sec).data = data

/-- The key stream of the crypt line `t` for a sector: that of the key derived from its own key
string and of the initial vector its own offset gives. -/
def DmTargetSpec.ownStream (t : DmTargetSpec) (sec : UInt32) : Sector :=
  keystream (dmDeriveKey t.key) (t.ivOffset + (sec - t.startSector))

/-- Accesses to sector `sec` of device `m` go through the key stream of the crypt line `t`: a write
hands the device below the sector encrypted with it, a read returns what the device below returned
decrypted with it, and what was written is read back. -/
structure OwnKeyStream (s : DmState) (m : Fin 8) (t : DmTargetSpec) (sec : UInt32) : Prop where
  written : ∀ (disk : Backing) (p : VerityParams) (now : DmState) (plain : Sector),
    (now.devs m).SameTable (s.devs m) →
    (dmProcessSector disk p now m sec plain .write).err =
      disk.write now.time t.bdev (t.offsetSector + (sec - t.startSector))
        (fun q => plain q ^^^ t.ownStream sec q)
  read : ∀ (disk : Backing) (p : VerityParams) (now : DmState) (buf : Sector),
    (now.devs m).SameTable (s.devs m) → (dmProcessSector disk p now m sec buf .read).err = 0 →
    (dmProcessSector disk p now m sec buf .read).buf = fun q =>
      (disk.read now.time t.bdev (t.offsetSector + (sec - t.startSector))).data q ^^^
        t.ownStream sec q
  readsBack : ∀ (disk : Backing) (p : VerityParams) (now : DmState) (plain buf : Sector),
    disk.ReadsBack → (now.devs m).SameTable (s.devs m) →
    (dmProcessSector disk p now m sec plain .write).err = 0 →
    (dmProcessSector disk p (dmProcessSector disk p now m sec plain .write).state m sec buf
      .read).err = 0 →
    (dmProcessSector disk p (dmProcessSector disk p now m sec plain .write).state m sec buf
      .read).buf = plain

/-- A device below that answers a write with byte `q` of the sector it was handed. -/
def echoDisk (q : Fin 512) : Backing :=
  ⟨fun _ _ _ => ⟨0, fun _ => 0⟩, fun _ _ _ data => (data q).toNat⟩

section Keys

variable {disk : Backing} {binSalt : Digest} {p : VerityParams} {s s' : DmState} {m : Fin 8}
  {t : DmTargetSpec} {sec : UInt32} {i : Nat}

theorem loadTarget_parsedKey (l : Loading) (t : DmTargetSpec) :
    (loadTarget disk binSalt l t).dev.parsedKey =
      if t.type = .crypt then dmDeriveKey t.key else l.dev.parsedKey := by
  unfold loadTarget
  split <;> rfl

theorem foldl_loadTarget_parsedKey (table : List DmTargetSpec) (l : Loading) :
    (table.foldl (loadTarget disk binSalt) l).dev.parsedKey =
      lastCryptKey l.dev.parsedKey table := by
  induction table generalizing l with
  | nil => rfl
  | cons t table ih =>
    rw [foldl_cons, ih, loadTarget_parsedKey]
    rfl

theorem dmIocCreate_parsedKey (hm : dmCreateMinor s req = .ok m)
    (h : dmIocCreate disk binSalt s req = (0, s')) :
    (s'.devs m).parsedKey = lastCryptKey (fun _ => 0) req.table := by
  rw [dmIocCreate, hm] at h
  obtain ⟨-, rfl⟩ := Prod.mk.inj h
  simp only [DmState.setDev, Function.update_self]
  exact foldl_loadTarget_parsedKey req.table _

theorem DmDevice.SameTable.findTarget {dev dev' : DmDevice} (h : dev.SameTable dev')
    (hfind : dev'.findTarget sec = some (i, t)) :
    ∃ u, dev.findTarget sec = some (i, u) ∧ u.uncounted = t.uncounted := by
  rw [findTarget_eq_some_iff] at hfind
  obtain ⟨hget, hcovers, hfirst⟩ := hfind
  obtain ⟨u, hu, heq⟩ := h.symm.getElem? hget
  refine ⟨u, findTarget_eq_some_iff.mpr ⟨hu, ?_, fun j hj w hw => ?_⟩, heq.symm⟩
  · rw [← covers_uncounted heq]
    exact hcovers
  · obtain ⟨w', hw', hweq⟩ := h.getElem? hw
    rw [covers_uncounted hweq]
    exact hfirst j hj w' hw'

/-- An access to a sector that a crypt line serves, in a state that still has the table. -/
theorem dmProcessSector_crypt (hfind : (s.devs m).findTarget sec = some (i, t))
    (htype : t.type = .crypt) {now : DmState} (hsame : (now.devs m).SameTable (s.devs m))
    (buf : Sector) : dmProcessSector disk p now m sec buf .write =
      ⟨disk.write now.time t.bdev (t.offsetSector + (sec - t.startSector))
        (dmCryptSector (s.devs m).parsedKey (t.ivOffset + (sec - t.startSector)) buf), buf,
        { now with time := now.time + 1 }⟩ ∧
      ((dmProcessSector disk p now m sec buf .read).err = 0 →
      (disk.read now.time t.bdev (t.offsetSector + (sec - t.startSector))).err = 0 ∧
      (dmProcessSector disk p now m sec buf .read).buf =
        dmCryptSector (s.devs m).parsedKey (t.ivOffset + (sec - t.startSector))
          (disk.read now.time t.bdev (t.offsetSector + (sec - t.startSector))).data) := by
  obtain ⟨u, hu, heq⟩ := hsame.findTarget hfind
  -- the counters are the only fields that an access changes, and a crypt line reads none of them
  have hline : u.type = .crypt ∧ u.bdev = t.bdev ∧ u.offsetSector = t.offsetSector ∧
      u.startSector = t.startSector ∧ u.ivOffset = t.ivOffset := by
    rw [← htype]
    simp only [uncounted, DmTargetSpec.mk.injEq] at heq
    simp only [heq, and_self]
  obtain ⟨hcrypt, hbdev, hoff, hstart, hiv⟩ := hline
  simp only [dmProcessSector, hu, hcrypt, hbdev, hoff, hstart, hiv, dmRwPhysSector, hsame.key]
  refine ⟨trivial, fun h => ?_⟩
  by_cases herr : (disk.read now.time t.bdev (t.offsetSector + (sec - t.startSector))).err = 0
  · simp only [herr, ne_eq, not_true_eq_false, ite_false, and_self]
  · simp only [herr, ne_eq, not_false_eq_true, ite_true] at h

theorem crypt_readsBack (hfind : (s.devs m).findTarget sec = some (i, t)) (htype : t.type = .crypt)
    {now : DmState} (hsame : (now.devs m).SameTable (s.devs m)) (plain buf : Sector)
    (hdisk : disk.ReadsBack) (hwrite : (dmProcessSector disk p now m sec plain .write).err = 0)
    (hread : (dmProcessSector disk p (dmProcessSector disk p now m sec plain .write).state m sec buf
      .read).err = 0) :
    (dmProcessSector disk p (dmProcessSector disk p now m sec plain .write).state m sec buf
      .read).buf = plain := by
  rw [(dmProcessSector_crypt hfind htype hsame plain).1] at hwrite hread ⊢
  have hsame' : (({ now with time := now.time + 1 } : DmState).devs m).SameTable (s.devs m) :=
    hsame
  obtain ⟨herr, hbuf⟩ := (dmProcessSector_crypt hfind htype hsame' buf).2 hread
  rw [hbuf, hdisk _ _ _ _ hwrite herr, dmCryptSector_dmCryptSector]

/-- The line that serves a sector is the first line of the created table that covers it. -/
theorem dmIocCreate_findTarget {req : DmIoctlReq} (hm : dmCreateMinor s req = .ok m)
    (h : dmIocCreate disk binSalt s req = (0, s')) :
    (∃ i, (s'.devs m).findTarget sec = some (i, t)) ↔
      req.table.find? (·.covers sec) = some t := by
  have htargets := dmIocCreate_targets hm h
  constructor
  · rintro ⟨i, hfind⟩
    obtain ⟨hget, hcov, hbefore⟩ := findTarget_eq_some_iff.mp hfind
    rw [htargets] at hget hbefore
    obtain ⟨hi, rfl⟩ := List.getElem?_eq_some_iff.mp hget
    refine find?_eq_some_iff_getElem.mpr ⟨hcov, i, hi, rfl, fun j hj => ?_⟩
    rw [hbefore j hj _ (getElem?_eq_getElem (hj.trans hi))]
    rfl
  · intro hfirst
    obtain ⟨hcov, i, hi, rfl, hbefore⟩ := find?_eq_some_iff_getElem.mp hfirst
    refine ⟨i, findTarget_eq_some_iff.mpr ?_⟩
    rw [htargets]
    refine ⟨getElem?_eq_getElem hi, hcov, fun j hj u hu => ?_⟩
    obtain ⟨hjlt, rfl⟩ := List.getElem?_eq_some_iff.mp hu
    simpa using hbefore j hj

/-- What a sector of a crypt line goes through is its own key stream exactly if that is the key
stream of the device's one key. -/
theorem ownKeyStream_iff (hfind : (s.devs m).findTarget sec = some (i, t))
    (htype : t.type = .crypt) :
    OwnKeyStream s m t sec ↔
      t.ownStream sec = keystream (s.devs m).parsedKey (t.ivOffset + (sec - t.startSector)) := by
  constructor
  · intro hown
    funext q
    -- the zero sector is handed to the device below as the key stream itself
    have herr := hown.written (echoDisk q) ⟨fun salt _ => salt, fun _ => 0⟩ s (fun _ => 0) (.refl _)
    rw [(dmProcessSector_crypt hfind htype (.refl _) _).1] at herr
    simpa [echoDisk, dmCryptSector, UInt8.toNat_inj] using herr.symm
  · intro hsame
    have hcrypt : ∀ src : Sector, dmCryptSector (s.devs m).parsedKey
        (t.ivOffset + (sec - t.startSector)) src = fun q => src q ^^^ t.ownStream sec q := by
      intro src
      rw [hsame]
      rfl
    refine ⟨fun disk p now plain htable => ?_, fun disk p now buf htable herr => ?_,
      fun disk p now plain buf hdisk htable => crypt_readsBack hfind htype htable plain buf hdisk⟩
    · rw [(dmProcessSector_crypt hfind htype htable plain).1, hcrypt]
    · rw [((dmProcessSector_crypt hfind htype htable buf).2 herr).2, hcrypt]

/-- Every crypt line of an accepted table is read and written through its own key stream if and
only if, for each sector it serves, that is the key stream of the last crypt line's key. -/
theorem own_key_stream_iff {req : DmIoctlReq} (hm : dmCreateMinor s req = .ok m)
    (h : dmIocCreate disk binSalt s req = (0, s')) :
    (∀ sec i t, (s'.devs m).findTarget sec = some (i, t) → t.type = .crypt →
      OwnKeyStream s' m t sec) ↔
    ∀ t sec, req.table.find? (·.covers sec) = some t → t.type = .crypt →
      t.ownStream sec =
        keystream (lastCryptKey (fun _ => 0) req.table) (t.ivOffset + (sec - t.startSector)) := by
  rw [← dmIocCreate_parsedKey hm h]
  constructor
  · intro hown t sec hfirst htype
    obtain ⟨i, hfind⟩ := (dmIocCreate_findTarget hm h).mpr hfirst
    exact (ownKeyStream_iff hfind htype).mp (hown sec i t hfind htype)
  · intro hsame sec i t hfind htype
    exact (ownKeyStream_iff hfind htype).mpr
      (hsame t sec ((dmIocCreate_findTarget hm h).mp ⟨i, hfind⟩) htype)

/-- Two crypt lines of 8 sectors with the key strings `a` and `b`. -/
def twoKeysReq (a b : List UInt8) : DmIoctlReq :=
  twoLineReq ⟨0, 8, .crypt, 3, 0, 0, 0, 0, 0, 0, 0, 0, a, fun _ => 0⟩
    ⟨8, 8, .crypt, 3, 8, 0, 0, 0, 100, 0, 0, 0, b, fun _ => 0⟩

theorem one_key_string_own_key_stream :
    ∃ s', dmIocCreate sbDisk (fun _ => 0) dmInit (twoKeysReq [0x61] [0x61]) = (0, s') ∧
      ∀ sec i t, (s'.devs 0).findTarget sec = some (i, t) → t.type = .crypt →
        OwnKeyStream s' 0 t sec := by
  have hcreate : dmIocCreate sbDisk (fun _ => 0) dmInit (twoKeysReq [0x61] [0x61]) =
    (0, (dmIocCreate sbDisk (fun _ => 0) dmInit (twoKeysReq [0x61] [0x61])).2) := rfl
  refine ⟨_, hcreate, (own_key_stream_iff (m := 0) rfl hcreate).mpr fun t sec hfirst _ => ?_⟩
  have hkey : t.key = [0x61] := by
    obtain rfl | ht := mem_cons.mp (mem_of_find?_eq_some hfirst)
    · rfl
    · obtain rfl := mem_singleton.mp ht
      rfl
  rw [DmTargetSpec.ownStream, hkey]
  rfl

/-- Of two crypt lines with different key strings the first one is served with the key stream of
the second. -/
theorem first_line_gets_second_key :
    ∃ s', dmIocCreate sbDisk (fun _ => 0) dmInit (twoKeysReq [0x61] [0x62]) = (0, s') ∧
      ∃ i t, (s'.devs 0).findTarget 0 = some (i, t) ∧ t.type = .crypt ∧ t.key = [0x61] ∧
        ¬ OwnKeyStream s' 0 t 0 := by
  refine ⟨_, rfl, 0, _, rfl, rfl, rfl, fun hown => ?_⟩
  have hstreams : keystream (dmDeriveKey [0x61]) 0 0 ≠ keystream (dmDeriveKey [0x62]) 0 0 := by
    decide +kernel
  exact hstreams (congrFun ((ownKeyStream_iff rfl rfl).mp hown) 0)

end Keys

end Six.Dm
