import Six.Fuse.Conn

/-! A reply that the daemon writes in segments.  `fuseCopyFromIov` gathers bytes from them, and
`fuseDevWritev` is a write of the device that runs to its end. -/

namespace Six.Fuse

open Lib Errno

/-- `fuse_copy_from_iov`: the bytes that it appends to `dst`. -/
def fuseCopyFromIov : List (List UInt8) → Nat → Nat → List UInt8
  | [], _, _ => []
  | seg :: iov, skip, nbytes =>
    if nbytes = 0 then []
    else if seg.length ≤ skip then fuseCopyFromIov iov (skip - seg.length) nbytes
    else
      let copied := (seg.drop skip).take nbytes
      copied ++ fuseCopyFromIov iov 0 (nbytes - copied.length)

theorem fuseCopyFromIov_eq (iov : List (List UInt8)) (skip nbytes : Nat) :
    fuseCopyFromIov iov skip nbytes = fieldAt iov.flatten skip nbytes := by
  unfold fieldAt
  fun_induction fuseCopyFromIov iov skip nbytes with
  | case1 => simp
  | case2 => simp
  | case3 seg iov skip nbytes hn hskip ih =>
    rw [ih, List.flatten_cons, List.drop_append, List.drop_of_length_le hskip, List.nil_append]
  | case4 seg iov skip nbytes hn hskip copied ih =>
    have hlen : copied.length = min nbytes (seg.drop skip).length := List.length_take
    have hlt : skip - seg.length = 0 := by omega
    rw [ih, List.flatten_cons, List.drop_append, List.take_append, hlt]
    congr 2
    omega

/-- What a write leaves in the request that it answers: `outBuf` is the bytes stored in the buffer
of the reply, and `outBufActual` how many it reports. -/
structure Answer where
  req : Nat
  out : OutHeader
  outBuf : List UInt8 := []
  outBufActual : Nat := 0

def OutHeader.ofBytes (bs : List UInt8) : OutHeader where
  len := leNat (fieldAt bs 0 4)
  error := (UInt32.ofNat (leNat (fieldAt bs 4 4))).toInt32.toInt
  unique := UInt64.ofNat (leNat (fieldAt bs 8 8))

/-- `fuse_dev_writev`: its result, and the request that it finishes. -/
def fuseDevWritev (c : Conn) (iov : List (List UInt8)) (count : Nat) : Int × Option Answer :=
  if !c.connected then (-enodev, none)
  else if count < Conn.outHeaderSize then (-einval, none)
  else
    let oh := OutHeader.ofBytes (fuseCopyFromIov iov 0 Conn.outHeaderSize)
    if oh.len ≠ count then (-einval, none)
    else if oh.unique = 0 then (count, none)
    else
      match c.findProcessing oh.unique with
      | none => (-enoent, none)
      | some r =>
        let out := Conn.OutHeader.normalise oh
        match (c.req r).outBufMax with
        | none => (count, some { req := r, out })
        | some max =>
          if out.error = 0 ∧ count - Conn.outHeaderSize > 0 then
            let payloadLen := min (count - Conn.outHeaderSize) max
            (count, some
              { req := r, out, outBufActual := payloadLen
                outBuf := fuseCopyFromIov iov Conn.outHeaderSize payloadLen })
          else (count, some { req := r, out })

/-- The copy takes the bytes asked for from the joined segments.  `do_readv_writev` passes the sum
of the segments, as an `unsigned int`; then a write stores no more than the buffer of the request
has room for, and reports no more than it stored. -/
theorem writev_copies_exactly (c : Conn) (iov : List (List UInt8)) :
    (∀ skip nbytes, fuseCopyFromIov iov skip nbytes = (iov.flatten.drop skip).take nbytes) ∧
      ∀ a ∈ (fuseDevWritev c iov (iov.flatten.length % 2 ^ 32)).2,
        a.outBuf.length ≤ (c.req a.req).outBufMax.getD 0 ∧ a.outBufActual ≤ a.outBuf.length := by
  refine ⟨fuseCopyFromIov_eq iov, ?_⟩
  have hle := Nat.mod_le iov.flatten.length (2 ^ 32)
  generalize iov.flatten.length % 2 ^ 32 = count at hle
  fun_cases fuseDevWritev c iov count with
  | case7 _ _ oh _ _ r _ out max hmax _ payloadLen =>
    have hlen : (fuseCopyFromIov iov Conn.outHeaderSize payloadLen).length = payloadLen := by
      rw [fuseCopyFromIov_eq, fieldAt, List.length_take, List.length_drop]
      omega
    rintro a ⟨⟩
    rw [hlen, hmax]
    exact ⟨Nat.min_le_right _ _, le_rfl⟩
  | _ => simp

end Six.Fuse
