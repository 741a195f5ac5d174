import Six.Lib.File
import Six.Lib.Graph

/-! `zip_find_entry` of `applications/ota/ota.c`, the scan over the local file headers of a package.
The next position is a sum of fields modulo `2^32`, and a name is compared after it was cut. -/

namespace Six.Ota

open Lib

inductive ZipTurn
  | fail
  | found (off size : UInt32)
  | next (pos : UInt32)
  deriving DecidableEq

def lfhField (lfh : List UInt8) (off n : Nat) : Nat := leNat (fieldAt lfh off n)

def hasHeader (f : File) (pos : Nat) : Bool :=
  f.count pos 30 = 30 ∧ lfhField (f.bytes pos 30) 0 4 = 0x04034b50

def zipTurn (f : File) (target : List UInt8) (pos : UInt32) : ZipTurn :=
  let lfh := f.bytes pos.toNat 30
  let nameLen := lfhField lfh 26 2
  let rlen := min nameLen 127
  let dataOff := pos + 30 + UInt32.ofNat nameLen + UInt32.ofNat (lfhField lfh 28 2)
  -- `lseek` refuses a negative offset
  if 2 ^ 31 ≤ pos.toNat then .fail
  else if ¬ hasHeader f pos.toNat ∨ lfhField lfh 8 2 ≠ 0 then .fail
  else if f.count (pos.toNat + 30) rlen ≠ rlen then .fail
  else if (f.bytes (pos.toNat + 30) rlen).takeWhile (· ≠ 0) = target then
    .found dataOff (UInt32.ofNat (lfhField lfh 22 4))
  else .next (dataOff + UInt32.ofNat (lfhField lfh 18 4))

/-- The loop from `pos` on: the offset and the size, if it finds the name.  There is no result when
it has not ended after the given number of turns. -/
def zipFindEntry (f : File) (target : List UInt8) : Nat → UInt32 → Option (Option (UInt32 × UInt32))
  | 0, _ => none
  | n + 1, pos =>
    match zipTurn f target pos with
    | .fail => some none
    | .found off size => some (some (off, size))
    | .next pos => zipFindEntry f target n pos

structure StoredEntry where
  head : List UInt8
  name : List UInt8
  extra : List UInt8
  data : List UInt8
  head_length : head.length = 30
  signature : lfhField head 0 4 = 0x04034b50
  method : lfhField head 8 2 = 0
  compSize : lfhField head 18 4 = data.length
  uncompSize : lfhField head 22 4 = data.length
  nameLen : lfhField head 26 2 = name.length
  extraLen : lfhField head 28 2 = extra.length

namespace StoredEntry

def bytes (e : StoredEntry) : List UInt8 := e.head ++ (e.name ++ (e.extra ++ e.data))

/-- The name as it is compared: what fits in the buffer, up to the first zero. -/
def bufferedName (e : StoredEntry) : List UInt8 := (e.name.take 127).takeWhile (· ≠ 0)

end StoredEntry

structure Archive (f : File) (entries : List StoredEntry) : Prop where
  holds : f.Holds 0 (entries.flatMap StoredEntry.bytes)
  last : hasHeader f (entries.flatMap StoredEntry.bytes).length = false

/-- The offset of the data and the size of the first of the entries from `off` on with a
property. -/
def locate (p : StoredEntry → Bool) : Nat → List StoredEntry → Option (Nat × Nat)
  | _, [] => none
  | off, e :: es =>
    if p e then some (off + 30 + e.name.length + e.extra.length, e.data.length)
    else locate p (off + e.bytes.length) es

variable {f : File} {target : List UInt8} {e : StoredEntry} {pos : UInt32}

theorem zipTurn_entry (h : f.Holds pos.toNat e.bytes) :
    (e.bufferedName = target → ∃ off size, zipTurn f target pos = .found off size ∧
      off.toNat = pos.toNat + 30 + e.name.length + e.extra.length ∧ size.toNat = e.data.length) ∧
    (e.bufferedName ≠ target →
      ∃ next, zipTurn f target pos = .next next ∧ next.toNat = pos.toNat + e.bytes.length) := by
  have hlt := f.size_lt
  obtain ⟨hhead, hrest⟩ := File.holds_append.mp h
  obtain ⟨hname, -⟩ := File.holds_append.mp hrest
  have hlen : e.bytes.length = 30 + e.name.length + e.extra.length + e.data.length := by
    simp [StoredEntry.bytes, e.head_length]
    omega
  have hsize := h.1
  have hlfh : f.bytes pos.toNat 30 = e.head := by
    rw [← e.head_length]
    exact hhead.2
  have hbuf : (f.bytes (pos.toNat + 30) (min e.name.length 127)).takeWhile (· ≠ 0) =
      e.bufferedName := by
    rw [e.head_length] at hname
    rw [StoredEntry.bufferedName, ← hname.2]
    simp [File.bytes, ← List.map_take, List.take_range, Nat.min_comm]
  have hcount : f.count pos.toNat 30 = 30 := File.count_of_le (by omega)
  have hheader : hasHeader f pos.toNat = true := by
    simp [hasHeader, hlfh, e.signature, hcount]
  unfold zipTurn
  rw [if_neg (by omega), hlfh, if_neg (by simp [hheader, e.method]), e.nameLen, e.extraLen,
    e.compSize, e.uncompSize, if_neg (not_not_intro (File.count_of_le (by omega))), hbuf]
  refine ⟨fun heq => ⟨_, _, if_pos heq, ?_, ?_⟩, fun hne => ⟨_, if_neg hne, ?_⟩⟩
  all_goals
    simp only [UInt32.toNat_add, UInt32.toNat_ofNat', UInt32.reduceToNat]
    omega

theorem zipFindEntry_entries (entries : List StoredEntry)
    (h : f.Holds pos.toNat (entries.flatMap StoredEntry.bytes))
    (hlast : hasHeader f (pos.toNat + (entries.flatMap StoredEntry.bytes).length) = false) :
    ∃ r, zipFindEntry f target (entries.length + 1) pos = some r ∧
      r.map (fun x => (x.1.toNat, x.2.toNat)) =
        locate (·.bufferedName = target) pos.toNat entries := by
  induction entries generalizing pos with
  | nil =>
    have hturn : zipTurn f target pos = .fail := by
      have hno : hasHeader f pos.toNat = false := hlast
      simp [zipTurn, hno]
    exact ⟨none, by simp [zipFindEntry, hturn], rfl⟩
  | cons e entries ih =>
    rw [List.flatMap_cons] at h hlast
    obtain ⟨hentry, hrest⟩ := File.holds_append.mp h
    by_cases hname : e.bufferedName = target
    · obtain ⟨off, size, hturn, hoff, hsize⟩ := (zipTurn_entry hentry).1 hname
      exact ⟨some (off, size), by simp [zipFindEntry, hturn], by simp [locate, hname, hoff, hsize]⟩
    · obtain ⟨next, hturn, hnext⟩ := (zipTurn_entry hentry).2 hname
      rw [← hnext] at hrest
      obtain ⟨r, hr, hlocate⟩ :=
        ih hrest (by rw [hnext, Nat.add_assoc, ← List.length_append, hlast])
      exact ⟨r, by simp [zipFindEntry, hturn, hr], by simp [locate, hname, hlocate, hnext]⟩

def Leads (f : File) (target : List UInt8) (p q : UInt32) : Prop := zipTurn f target p = .next q

theorem ends_iff : Ends (Leads f target) pos ↔ ∃ n r, zipFindEntry f target n pos = some r := by
  constructor
  · intro h
    induction h with
    | intro pos _ ih =>
      cases hturn : zipTurn f target pos with
      | fail => exact ⟨1, none, by simp [zipFindEntry, hturn]⟩
      | found off size => exact ⟨1, some (off, size), by simp [zipFindEntry, hturn]⟩
      | next q =>
        obtain ⟨n, r, hr⟩ := ih q hturn
        exact ⟨n + 1, r, by simp [zipFindEntry, hturn, hr]⟩
  · rintro ⟨n, r, hr⟩
    induction n generalizing pos with
    | zero => cases hr
    | succ n ih =>
      refine ends_intro fun q hq => ih ?_
      simpa [zipFindEntry, show zipTurn f target pos = .next q from hq] using hr

theorem zipFindEntry_add (h : zipFindEntry f target n pos = some r) (k : Nat) :
    zipFindEntry f target (n + k) pos = some r := by
  induction n generalizing pos with
  | zero => cases h
  | succ n ih =>
    rw [Nat.succ_add, zipFindEntry]
    rw [zipFindEntry] at h
    cases hturn : zipTurn f target pos with
    | next q => exact ih (by simpa [hturn] using h)
    | _ => simpa [hturn] using h

/-- The scan ends, and what it finds in an archive is the first entry with the name. -/
structure FindsEntry (f : File) (target : List UInt8) : Prop where
  ends : ∃ n r, zipFindEntry f target n 0 = some r
  first : ∀ entries, Archive f entries → ∀ n off size,
    zipFindEntry f target n 0 = some (some (off, size)) →
      locate (·.name = target) 0 entries = some (off.toNat, size.toNat)

/-- In an archive, the first entry whose name is the target once it was cut is the first entry whose
name is the target. -/
def NamesTell (f : File) (target : List UInt8) : Prop :=
  ∀ entries, Archive f entries → ∀ r, locate (·.bufferedName = target) 0 entries = some r →
    locate (·.name = target) 0 entries = some r

/-- The scan is right exactly when no chain of headers leads back to a header on it, and names tell
the entries apart as they are cut. -/
theorem zip_find_entry_iff (f : File) (target : List UInt8) :
    FindsEntry f target ↔ ¬ MeetsCycle (Leads f target) 0 ∧ NamesTell f target := by
  have : Finite UInt32 :=
    Finite.of_injective (fun x : UInt32 => (⟨x.toNat, x.toNat_lt⟩ : Fin (2 ^ 32)))
    fun x y h => UInt32.toNat_inj.mp (congrArg Fin.val h)
  have hscan : ∀ entries, Archive f entries → ∀ n r, zipFindEntry f target n 0 = some r →
      r.map (fun x => (x.1.toNat, x.2.toNat)) = locate (·.bufferedName = target) 0 entries := by
    intro entries hall n r hr
    obtain ⟨r', hr', hlocate⟩ : ∃ r', zipFindEntry f target (entries.length + 1) 0 = some r' ∧
        r'.map (fun x => (x.1.toNat, x.2.toNat)) = locate (·.bufferedName = target) 0 entries :=
      zipFindEntry_entries entries hall.holds (by simpa using hall.last)
    have hboth := zipFindEntry_add hr (entries.length + 1)
    rw [Nat.add_comm, zipFindEntry_add hr' n] at hboth
    rw [← Option.some_inj.mp hboth, hlocate]
  constructor
  · rintro ⟨hends, hfirst⟩
    refine ⟨ends_iff_not_meetsCycle.mp (ends_iff.mpr hends), fun entries hall r hr => ?_⟩
    obtain ⟨n, x, hx⟩ := hends
    have hx' := hscan entries hall n x hx
    rw [hr] at hx'
    obtain ⟨y, rfl, rfl⟩ := Option.map_eq_some_iff.mp hx'
    exact hfirst entries hall n y.1 y.2 hx
  · rintro ⟨hcycle, hnames⟩
    refine ⟨ends_iff.mp (ends_iff_not_meetsCycle.mpr hcycle), fun entries hall n off size hr => ?_⟩
    exact hnames entries hall _ (hscan entries hall n _ hr).symm

def loopingHeader : File :=
  .ofList ([0x50, 0x4b, 3, 4] ++ List.replicate 14 0 ++ [0xe2, 0xff, 0xff, 0xff] ++
    List.replicate 8 0) (by decide)

theorem looping_header_never_ends : ¬ FindsEntry loopingHeader [97] := by
  have hturn : zipTurn loopingHeader [97] 0 = .next 0 := by decide
  rintro ⟨⟨n, r, hr⟩, -⟩
  induction n with
  | zero => cases hr
  | succ n ih => exact ih (by simpa [zipFindEntry, hturn] using hr)

end Six.Ota
