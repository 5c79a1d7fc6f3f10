import Qm35.Rom.Unstitch

/- Which files `qmrom_unstitch_fw` takes. It goes from size field to size field: from the
   one at `t`, which says `n`, to the one behind its section, in 32-bit arithmetic, as
   long as `t + n + 4`, the first sum also in 32 bits, is not more than the size of the
   file. Whether a size field lies in the file at all is never checked, and a sum that
   wraps passes the check.

   A file that is four sections one after the other is taken apart into these sections.
   For any other file the function does what it should, which is to return `-EINVAL`,
   exactly where every size field it comes to lies in the file and no sum wraps in a
   file that passes all the checks. And the key type lies in the key 1 certificate of
   a file that is taken exactly where that certificate has more than 12 bytes. -/
namespace Qm35.Qmrom

open ByteMem Trace

/-- The file made of four sections. -/
def stitch (key1 key2 crt img : List UInt8) : List UInt8 :=
  prefixed key1 ++ (prefixed key2 ++ (prefixed crt ++ prefixed img))

/-- The walk goes from the size field at `t` to the one at `t'`. -/
def Behind (data : List UInt8) (t t' : Nat) : Prop :=
  ∃ n, le32At data t = some n ∧ u32 (t + n) + 4 ≤ data.length ∧ t' = u32 (u32 (t + 4) + n)

/-- From `t` the walk comes to `t'` after `i` sections. -/
def ReachesFrom (data : List UInt8) : Nat → Nat → Nat → Prop
  | 0, t, t' => t' = t
  | i + 1, t, t' => ∃ s, Behind data t s ∧ ReachesFrom data i s t'

/-- The walk comes to the `i`-th size field, at `t`. -/
def Reaches (data : List UInt8) (i t : Nat) : Prop := 8 ≤ data.length ∧ ReachesFrom data i 0 t

/-- Every size field the walk comes to lies in the file. -/
def SizesInside (data : List UInt8) : Prop := ∀ i < 4, ∀ t, Reaches data i t → t + 4 ≤ data.length

/-- The walk comes to the end, and the last size passes its check. -/
def PassesChecks (data : List UInt8) : Prop :=
  ∃ t n, Reaches data 3 t ∧ le32At data t = some n ∧ u32 (t + n) + 4 = data.length

/-- Some sum on the way does not fit 32 bits. -/
def SumWraps (data : List UInt8) : Prop :=
  ∃ i < 4, ∃ t n, Reaches data i t ∧ le32At data t = some n ∧ 4294967296 ≤ t + n

/-- The four allocations of `qmrom_unstitch_fw` succeed. -/
def AllocsSucceed (m : Machine) : Prop := ∀ i < 4, (m.dev (m.log.length + i)).alloc = true

/-- `qmrom_unstitch_fw` reads nothing outside the file, returns `-EINVAL` for what is not four
sections, and what it takes has its key type in the key 1 certificate. -/
def UnstitchSafe (data : List UInt8) (revision : Nat) (m : Machine) : Prop :=
  ∃ r m', qmromUnstitchFw data revision m = some (r, m') ∧
    ((∀ key1 key2 crt img, data ≠ stitch key1 key2 crt img) → r = .error eInval) ∧
    ∀ fws, r = .ok fws → hbkLoc < fws.key1Crt.data.length

/-! Size fields and sections in a file. -/

section Fields
variable {data s rest : List UInt8} {t n : Nat}

theorem le32At_none : le32At data t = none ↔ data.length < t + 4 := by
  constructor
  · intro h
    by_contra hle
    have hlen : (data.drop t).length = data.length - t := List.length_drop
    unfold le32At at h
    split at h
    · cases h
    · next hshort =>
      match hdrop : data.drop t with
      | b0 :: b1 :: b2 :: b3 :: bs => exact hshort b0 b1 b2 b3 bs hdrop
      | [] | [_] | [_, _] | [_, _, _] =>
        rw [hdrop] at hlen
        simp only [List.length_cons, List.length_nil] at hlen
        omega
  · intro h
    cases hs : le32At data t with
    | none => rfl
    | some n =>
      have := (le32At_some hs).1
      omega

theorem le32At_of_drop (hdrop : data.drop t = bytes32 n ++ rest) (hn : n < 4294967296) :
    le32At data t = some n := by
  have hbytes : bytes32 n ++ rest = UInt8.ofNat n :: UInt8.ofNat (n / 256) :: UInt8.ofNat (n / 65536) ::
      UInt8.ofNat (n / 65536 / 256) :: rest := rfl
  unfold le32At
  rw [hdrop, hbytes]
  simp only [UInt8.toNat_ofNat', Option.some.injEq]
  omega

theorem sliceAt_of_drop (hdrop : data.drop t = s ++ rest) (ht : t ≤ data.length) :
    sliceAt data t s.length = some s := by
  have hlen := congrArg List.length hdrop
  rw [List.length_drop, List.length_append] at hlen
  rw [sliceAt, if_pos (by omega), hdrop, List.take_left]

end Fields

/-! The walk, for any number of sections. -/

/-- The checks of `qmrom_unstitch_fw` from the size field at `t` on, with `k` more sections
behind this one. -/
def walk (data : List UInt8) : Nat → Nat → Option (Except Int (List Extent))
  | 0, t => do
    let n ← le32At data t
    if u32 (t + n) + 4 ≠ data.length then some (.error eInval) else some (.ok [⟨u32 (t + 4), n⟩])
  | k + 1, t => do
    let n ← le32At data t
    if data.length < u32 (t + n) + 4 then some (.error eInval)
    else (walk data k (u32 (u32 (t + 4) + n))).map fun r => r.map (⟨u32 (t + 4), n⟩ :: ·)

/-- Four extents as the layout of a file. -/
def layoutOf : List Extent → Layout
  | [key1, key2, crt, fw] => ⟨key1, key2, crt, fw⟩
  | _ => ⟨⟨0, 0⟩, ⟨0, 0⟩, ⟨0, 0⟩, ⟨0, 0⟩⟩

/-- The checks of `qmrom_unstitch_fw` are the walk over four sections. -/
theorem unstitchLayout_walk {data : List UInt8} {revision : Nat} (hrev : revision ≠ chipRevisionA0)
    (hsize : 8 ≤ data.length) :
    unstitchLayout data revision = (walk data 3 0).map fun r => r.map layoutOf := by
  unfold unstitchLayout
  rw [if_neg hrev, if_neg (Nat.not_lt.mpr hsize)]
  simp only [walk, Option.bind_eq_bind]
  cases h1 : le32At data 0 with
  | none => rfl
  | some n1 =>
    simp only [Option.bind_some]
    by_cases c1 : data.length < u32 (0 + n1) + 4
    · simp only [c1, if_true]
      rfl
    · simp only [c1, if_false]
      cases h2 : le32At data (u32 (u32 (0 + 4) + n1)) with
      | none => rfl
      | some n2 =>
        simp only [Option.bind_some]
        by_cases c2 : data.length < u32 (u32 (u32 (0 + 4) + n1) + n2) + 4
        · simp only [c2, if_true]
          rfl
        · simp only [c2, if_false]
          cases h3 : le32At data (u32 (u32 (u32 (u32 (0 + 4) + n1) + 4) + n2)) with
          | none => rfl
          | some n3 =>
            simp only [Option.bind_some]
            by_cases c3 : data.length < u32 (u32 (u32 (u32 (u32 (0 + 4) + n1) + 4) + n2) + n3) + 4
            · simp only [c3, if_true]
              rfl
            · simp only [c3, if_false]
              cases h4 : le32At data (u32 (u32 (u32 (u32 (u32 (u32 (0 + 4) + n1) + 4) + n2) + 4) + n3)) with
              | none => rfl
              | some n4 =>
                simp only [Option.bind_some]
                split <;> rfl

section Walk
variable {data : List UInt8} {k t : Nat}

/-- The walk goes on from a size field that passes its check. -/
theorem walk_succ {n : Nat} (hn : le32At data t = some n) (hle : u32 (t + n) + 4 ≤ data.length) :
    walk data (k + 1) t = (walk data k (u32 (u32 (t + 4) + n))).map fun r => r.map (⟨u32 (t + 4), n⟩ :: ·) := by
  rw [walk, hn, Option.bind_eq_bind, Option.bind_some, if_neg (Nat.not_lt.mpr hle)]

/-- A size field that lies outside is not the one at `t`, so it is one behind it. -/
theorem outside_behind {n : Nat} (hn : le32At data t = some n) :
    (∃ i ≤ k + 1, ∃ t', ReachesFrom data i t t' ∧ data.length < t' + 4) ↔
      u32 (t + n) + 4 ≤ data.length ∧
        ∃ i ≤ k, ∃ t', ReachesFrom data i (u32 (u32 (t + 4) + n)) t' ∧ data.length < t' + 4 := by
  constructor
  · intro ⟨i, hi, t', hreach, hshort⟩
    cases i with
    | zero =>
      rw [show t' = t from hreach, ← le32At_none, hn] at hshort
      cases hshort
    | succ i =>
      obtain ⟨s, ⟨n', hn', hle, rfl⟩, hreach⟩ := hreach
      rw [hn, Option.some.injEq] at hn'
      subst hn'
      exact ⟨hle, i, Nat.le_of_succ_le_succ hi, t', hreach, hshort⟩
  · intro ⟨hle, i, hi, t', hreach, hshort⟩
    exact ⟨i + 1, Nat.succ_le_succ hi, t', ⟨_, ⟨n, hn, hle, rfl⟩, hreach⟩, hshort⟩

theorem walk_outside (hn : le32At data t = none) : walk data k t = none := by
  cases k <;> rw [walk, hn] <;> rfl

theorem walk_none : walk data k t = none ↔ ∃ i ≤ k, ∃ t', ReachesFrom data i t t' ∧ data.length < t' + 4 := by
  induction k generalizing t with
  | zero =>
    cases hn : le32At data t with
    | none => exact iff_of_true (walk_outside hn) ⟨0, le_rfl, t, rfl, le32At_none.mp hn⟩
    | some n =>
      constructor
      · intro h
        rw [walk, hn, Option.bind_eq_bind, Option.bind_some] at h
        split at h <;> cases h
      · intro ⟨i, hi, t', hreach, hshort⟩
        cases Nat.le_zero.mp hi
        rw [show t' = t from hreach, ← le32At_none, hn] at hshort
        cases hshort
  | succ k ih =>
    cases hn : le32At data t with
    | none => exact iff_of_true (walk_outside hn) ⟨0, Nat.zero_le _, t, rfl, le32At_none.mp hn⟩
    | some n =>
      rw [outside_behind hn]
      by_cases hle : u32 (t + n) + 4 ≤ data.length
      · rw [walk_succ hn hle, Option.map_eq_none_iff, ih, and_iff_right hle]
      · refine iff_of_false (fun h => ?_) fun h => hle h.1
        rw [walk, hn, Option.bind_eq_bind, Option.bind_some, if_pos (by omega)] at h
        cases h

/-- The walk gets through exactly where the last size passes its check as well. -/
theorem walk_ok : (∃ es, walk data k t = some (.ok es)) ↔
    ∃ t' n, ReachesFrom data k t t' ∧ le32At data t' = some n ∧ u32 (t' + n) + 4 = data.length := by
  induction k generalizing t with
  | zero =>
    constructor
    · intro ⟨es, h⟩
      obtain ⟨n, hn, h⟩ := Option.bind_eq_some_iff.mp h
      split at h
      · cases h
      · next heq => exact ⟨t, n, rfl, hn, not_not.mp heq⟩
    · intro ⟨t', n, hreach, hn, heq⟩
      rw [show t' = t from hreach] at hn heq
      refine ⟨[⟨u32 (t + 4), n⟩], ?_⟩
      rw [walk, hn, Option.bind_eq_bind, Option.bind_some, if_neg (not_not.mpr heq)]
  | succ k ih =>
    constructor
    · intro ⟨es, h⟩
      obtain ⟨n, hn, h⟩ := Option.bind_eq_some_iff.mp h
      split at h
      · cases h
      · next hle =>
        obtain ⟨r, hr, hmap⟩ := Option.map_eq_some_iff.mp h
        cases r with
        | error rc => cases hmap
        | ok es' =>
          obtain ⟨t', n', hreach, hn', heq⟩ := ih.mp ⟨es', hr⟩
          exact ⟨t', n', ⟨_, ⟨n, hn, Nat.not_lt.mp hle, rfl⟩, hreach⟩, hn', heq⟩
    · intro ⟨t', n', ⟨s, ⟨n, hn, hle, hs⟩, hreach⟩, hn', heq⟩
      subst hs
      obtain ⟨es, hes⟩ := ih.mpr ⟨t', n', hreach, hn', heq⟩
      refine ⟨⟨u32 (t + 4), n⟩ :: es, ?_⟩
      rw [walk_succ hn hle, hes]
      rfl

/-- No sum wraps on the way from `t` over `k` more sections. -/
def NoWrap (data : List UInt8) (k t : Nat) : Prop :=
  ∀ i ≤ k, ∀ t' n, ReachesFrom data i t t' → le32At data t' = some n → t' + n < 4294967296

theorem NoWrap.behind {t' : Nat} (h : NoWrap data (k + 1) t) (hb : Behind data t t') : NoWrap data k t' :=
  fun i hi t'' n hreach hn => h (i + 1) (Nat.succ_le_succ hi) t'' n ⟨t', hb, hreach⟩ hn

/-- The sections at these extents. -/
abbrev Slices (data : List UInt8) (es : List Extent) (ss : List (List UInt8)) : Prop :=
  List.Forall₂ (fun e s => sliceAt data e.off e.size = some s) es ss

/-- A size field whose section ends in the file, in numbers that do not wrap. -/
theorem u32_field {n : Nat} (hdata : data.length < 4294967296) (hle : t + 4 + n ≤ data.length) :
    u32 (t + 4) = t + 4 ∧ u32 (t + n) = t + n ∧ u32 (u32 (t + 4) + n) = t + 4 + n := by
  have h1 : u32 (t + 4) = t + 4 := u32_of_le (by omega) hdata
  refine ⟨h1, u32_of_le (by omega) hdata, ?_⟩
  rw [h1]
  exact u32_of_le hle hdata

/-- A walk that gets through without a wrap has gone over sections up to the end. -/
theorem walk_sections {es : List Extent} (hdata : data.length < 4294967296) (hnw : NoWrap data k t)
    (h : walk data k t = some (.ok es)) :
    ∃ ss, ss.length = k + 1 ∧ Slices data es ss ∧ data.drop t = (ss.map prefixed).flatten := by
  induction k generalizing t es with
  | zero =>
    obtain ⟨n, hn, h⟩ := Option.bind_eq_some_iff.mp h
    split at h
    · cases h
    · next heq =>
      cases h
      have hlt := hnw 0 le_rfl t n rfl hn
      -- the last section ends the file exactly
      have hend : t + 4 + n = data.length := by
        rw [not_not, u32, Nat.mod_eq_of_lt hlt] at heq
        omega
      obtain ⟨h4, _, _⟩ := u32_field hdata (Nat.le_of_eq hend)
      obtain ⟨_, hdrop⟩ := le32At_some hn
      have hrest : data.drop (t + 4) = data.drop (t + 4) ++ [] := (List.append_nil _).symm
      have hslice := sliceAt_of_drop hrest (by omega)
      rw [List.length_drop, show data.length - (t + 4) = n by omega] at hslice
      refine ⟨[data.drop (t + 4)], rfl, .cons ?_ .nil, ?_⟩
      · rw [h4]
        exact hslice
      · rw [hdrop, List.map_singleton, List.flatten_singleton, prefixed, List.length_drop,
          show data.length - (t + 4) = n by omega]
  | succ k ih =>
    obtain ⟨n, hn, h⟩ := Option.bind_eq_some_iff.mp h
    split at h
    · cases h
    · next hle =>
      obtain ⟨r, hr, hmap⟩ := Option.map_eq_some_iff.mp h
      cases r with
      | error rc => cases hmap
      | ok es' =>
        cases hmap
        have hlt := hnw 0 (Nat.zero_le _) t n rfl hn
        have hin : t + 4 + n ≤ data.length := by
          rw [u32, Nat.mod_eq_of_lt hlt] at hle
          omega
        obtain ⟨h4, _, hnext⟩ := u32_field hdata hin
        obtain ⟨ss, hlength, hss, hrest⟩ := ih (hnw.behind ⟨n, hn, Nat.not_lt.mp hle, rfl⟩) hr
        obtain ⟨_, hdrop⟩ := le32At_some hn
        rw [hnext] at hrest
        -- what is behind the size field is the section, then the rest of the sections
        have hsec : data.drop (t + 4) = (data.drop (t + 4)).take n ++ data.drop (t + 4 + n) := by
          rw [← List.drop_drop (i := n), List.take_append_drop]
        have hlen : ((data.drop (t + 4)).take n).length = n := by
          rw [List.length_take, List.length_drop]
          omega
        have hslice := sliceAt_of_drop hsec (by omega)
        rw [hlen] at hslice
        refine ⟨(data.drop (t + 4)).take n :: ss, congrArg (· + 1) hlength, .cons ?_ hss, ?_⟩
        · rw [h4]
          exact hslice
        · rw [hdrop, List.map_cons, List.flatten_cons, ← hrest, prefixed, hlen, List.append_assoc, ← hsec]

/-- Over sections up to the end the walk gets through without a wrap. -/
theorem walk_of_sections {ss : List (List UInt8)} (hdata : data.length < 4294967296)
    (hss : ss.length = k + 1) (ht : t ≤ data.length) (hdrop : data.drop t = (ss.map prefixed).flatten) :
    NoWrap data k t ∧ ∃ es, walk data k t = some (.ok es) ∧ Slices data es ss := by
  induction k generalizing t ss with
  | zero =>
    obtain ⟨s, rfl⟩ := List.length_eq_one_iff.mp hss
    rw [List.map_singleton, List.flatten_singleton, prefixed] at hdrop
    have hlen := congrArg List.length hdrop
    rw [List.length_drop, List.length_append, bytes32_length] at hlen
    have hn := le32At_of_drop hdrop (by omega)
    obtain ⟨h4, hsum, _⟩ := u32_field (t := t) (n := s.length) hdata (by omega)
    constructor
    · intro i hi t' n hreach hn'
      cases Nat.le_zero.mp hi
      rw [show t' = t from hreach] at hn' ⊢
      rw [hn, Option.some.injEq] at hn'
      omega
    · refine ⟨[⟨t + 4, s.length⟩], ?_, .cons ?_ .nil⟩
      · rw [walk, hn, Option.bind_eq_bind, Option.bind_some, hsum, if_neg (by omega), h4]
      · have hrest : data.drop (t + 4) = s ++ [] := by
          rw [← List.drop_drop, hdrop, List.append_nil]
          exact List.drop_left' (bytes32_length _)
        have hslice : sliceAt data (t + 4) s.length = some s := sliceAt_of_drop hrest (by omega)
        exact hslice
  | succ k ih =>
    obtain ⟨s, ss, rfl⟩ := List.exists_cons_of_length_eq_add_one hss
    rw [List.map_cons, List.flatten_cons, prefixed, List.append_assoc] at hdrop
    have hlen := congrArg List.length hdrop
    rw [List.length_drop, List.length_append, List.length_append, bytes32_length] at hlen
    have hin : t + 4 + s.length ≤ data.length := by omega
    have hn := le32At_of_drop hdrop (by omega)
    obtain ⟨h4, hsum, hnext⟩ := u32_field (t := t) (n := s.length) hdata hin
    have hrest : data.drop (t + 4) = s ++ (ss.map prefixed).flatten := by
      rw [← List.drop_drop, hdrop]
      exact List.drop_left' (bytes32_length _)
    have hafter : data.drop (t + 4 + s.length) = (ss.map prefixed).flatten := by
      rw [← List.drop_drop, hrest, List.drop_left]
    have hle : u32 (t + s.length) + 4 ≤ data.length := by
      rw [hsum]
      omega
    have hslice : sliceAt data (t + 4) s.length = some s := sliceAt_of_drop hrest (by omega)
    obtain ⟨hnw, es, hes, hsl⟩ := ih (Nat.succ.inj hss) hin hafter
    constructor
    · intro i hi t' n hreach hn'
      cases i with
      | zero =>
        rw [show t' = t from hreach] at hn' ⊢
        rw [hn, Option.some.injEq] at hn'
        omega
      | succ i =>
        obtain ⟨t'', ⟨n', hn'', _, rfl⟩, hreach⟩ := hreach
        rw [hn, Option.some.injEq] at hn''
        rw [← hn'', hnext] at hreach
        exact hnw i (Nat.le_of_succ_le_succ hi) t' n hreach hn'
    · refine ⟨⟨t + 4, s.length⟩ :: es, ?_, .cons hslice hsl⟩
      rw [walk_succ hn hle, hnext, hes, h4]
      rfl

end Walk

/-! The function. -/

theorem unstitchCopy_slices {data key1 key2 crt img : List UInt8} {es : List Extent}
    (h : Slices data es [key1, key2, crt, img]) (fwImg fwCrt key1Crt key2Crt : Nat) :
    unstitchCopy data (layoutOf es) fwImg fwCrt key1Crt key2Crt =
      some ⟨⟨fwImg, img⟩, ⟨fwCrt, crt⟩, ⟨key1Crt, key1⟩, ⟨key2Crt, key2⟩⟩ := by
  match es, h with
  | [e1, e2, e3, e4], .cons h1 (.cons h2 (.cons h3 (.cons h4 .nil))) =>
    unfold unstitchCopy layoutOf
    dsimp only
    rw [h1, h2, h3, h4]
    rfl

section Run
variable {data : List UInt8} {revision : Nat} {m : Machine}

theorem unstitchFw_error {rc : Int} (h : unstitchLayout data revision = some (.error rc)) :
    qmromUnstitchFw data revision m = some (.error rc, m) := by
  refine bind_some.mpr ⟨.error rc, m, ?_, rfl⟩
  exact ofOption_some.mpr ⟨h, rfl⟩

theorem forM_free_some (ptrs : List Nat) (m : Machine) : ∃ m', ptrs.forM qmromFree m = some ((), m') := by
  induction ptrs generalizing m with
  | nil => exact ⟨m, rfl⟩
  | cons ptr ptrs ih =>
    obtain ⟨m', hm'⟩ := ih { m with log := m.log ++ [.free ptr] }
    exact ⟨m', bind_some.mpr ⟨(), _, rfl, hm'⟩⟩

theorem unstitchErr_some (ptrs : List Nat) (m : Machine) : ∃ m', unstitchErr ptrs m = some (.error eNoMem, m') := by
  obtain ⟨m', hm'⟩ := forM_free_some ptrs m
  exact ⟨m', bind_some.mpr ⟨(), m', hm', rfl⟩⟩

theorem bind_run {α β : Type} {x : Rom α} {f : α → Rom β} {m m' : Machine} {a : α} (h : x m = some (a, m')) :
    (x >>= f) m = f a m' := by
  show (x m).bind (fun p => f p.1 p.2) = _
  rw [h]
  rfl

/-- The machine after its next `n` allocations have succeeded. -/
def afterAllocs (m : Machine) (n : Nat) : Machine := { m with log := m.log ++ List.replicate n (.alloc true) }

theorem alloc_granted (n : Nat) (h : (m.dev (m.log.length + n)).alloc = true) :
    qmromAlloc (afterAllocs m n) = some (some (m.log.length + n), afterAllocs m (n + 1)) := by
  have hlen : (afterAllocs m n).log.length = m.log.length + n := by simp [afterAllocs]
  unfold qmromAlloc
  rw [hlen, show (afterAllocs m n).dev = m.dev from rfl]
  simp [h, afterAllocs, List.replicate_succ']

theorem alloc_refused (n : Nat) (h : (m.dev (m.log.length + n)).alloc = false) :
    ∃ m', qmromAlloc (afterAllocs m n) = some (none, m') := by
  have hlen : (afterAllocs m n).log.length = m.log.length + n := by simp [afterAllocs]
  unfold qmromAlloc
  rw [hlen, show (afterAllocs m n).dev = m.dev from rfl]
  simp [h]

theorem afterAllocs_zero (m : Machine) : afterAllocs m 0 = m := by simp [afterAllocs]

/-- With its allocations granted the function copies the sections. -/
theorem unstitchFw_granted {l : Layout} (hl : unstitchLayout data revision = some (.ok l)) (ha : AllocsSucceed m) :
    qmromUnstitchFw data revision m =
      (unstitchCopy data l m.log.length (m.log.length + 1) (m.log.length + 2) (m.log.length + 3)).map
        fun fws => (.ok fws, afterAllocs m 4) := by
  have hlayout : ofOption (unstitchLayout data revision) m = some (.ok l, afterAllocs m 0) :=
    ofOption_some.mpr ⟨hl, (afterAllocs_zero m).symm⟩
  refine (bind_run hlayout).trans ?_
  refine (bind_run (alloc_granted 0 (ha 0 (by decide)))).trans ?_
  refine (bind_run (alloc_granted 1 (ha 1 (by decide)))).trans ?_
  refine (bind_run (alloc_granted 2 (ha 2 (by decide)))).trans ?_
  refine (bind_run (alloc_granted 3 (ha 3 (by decide)))).trans ?_
  show (ofOption (unstitchCopy data l _ _ _ _) >>= _) _ = _
  cases unstitchCopy data l m.log.length (m.log.length + 1) (m.log.length + 2) (m.log.length + 3) <;> rfl

/-- Where one of them is refused it returns `-ENOMEM`. -/
theorem unstitchFw_refused {l : Layout} (hl : unstitchLayout data revision = some (.ok l)) (ha : ¬AllocsSucceed m) :
    ∃ m', qmromUnstitchFw data revision m = some (.error eNoMem, m') := by
  have hlayout : ofOption (unstitchLayout data revision) m = some (.ok l, afterAllocs m 0) :=
    ofOption_some.mpr ⟨hl, (afterAllocs_zero m).symm⟩
  have grant : ∀ n, ¬(m.dev (m.log.length + n)).alloc = false → (m.dev (m.log.length + n)).alloc = true :=
    fun n => Bool.eq_true_of_not_eq_false
  by_cases h0 : (m.dev (m.log.length + 0)).alloc = false
  · obtain ⟨m', hm'⟩ := alloc_refused 0 h0
    exact ⟨m', bind_some.mpr ⟨_, _, hlayout, bind_some.mpr ⟨_, _, hm', rfl⟩⟩⟩
  by_cases h1 : (m.dev (m.log.length + 1)).alloc = false
  · obtain ⟨m1, hm1⟩ := alloc_refused 1 h1
    obtain ⟨m', hm'⟩ := unstitchErr_some [m.log.length + 0] m1
    exact ⟨m', bind_some.mpr ⟨_, _, hlayout, bind_some.mpr ⟨_, _, alloc_granted 0 (grant 0 h0),
      bind_some.mpr ⟨_, _, hm1, hm'⟩⟩⟩⟩
  by_cases h2 : (m.dev (m.log.length + 2)).alloc = false
  · obtain ⟨m1, hm1⟩ := alloc_refused 2 h2
    obtain ⟨m', hm'⟩ := unstitchErr_some [m.log.length + 0, m.log.length + 1] m1
    exact ⟨m', bind_some.mpr ⟨_, _, hlayout, bind_some.mpr ⟨_, _, alloc_granted 0 (grant 0 h0),
      bind_some.mpr ⟨_, _, alloc_granted 1 (grant 1 h1), bind_some.mpr ⟨_, _, hm1, hm'⟩⟩⟩⟩⟩
  by_cases h3 : (m.dev (m.log.length + 3)).alloc = false
  · obtain ⟨m1, hm1⟩ := alloc_refused 3 h3
    obtain ⟨m', hm'⟩ := unstitchErr_some [m.log.length + 0, m.log.length + 1, m.log.length + 2] m1
    exact ⟨m', bind_some.mpr ⟨_, _, hlayout, bind_some.mpr ⟨_, _, alloc_granted 0 (grant 0 h0),
      bind_some.mpr ⟨_, _, alloc_granted 1 (grant 1 h1), bind_some.mpr ⟨_, _, alloc_granted 2 (grant 2 h2),
        bind_some.mpr ⟨_, _, hm1, hm'⟩⟩⟩⟩⟩⟩
  · refine absurd (fun i hi => ?_) ha
    match i, hi with
    | 0, _ => exact grant 0 h0
    | 1, _ => exact grant 1 h1
    | 2, _ => exact grant 2 h2
    | 3, _ => exact grant 3 h3

end Run

/-- The walk over a file that is four sections. -/
theorem walk_stitch {key1 key2 crt img : List UInt8} (hlen : (stitch key1 key2 crt img).length < 4294967296) :
    NoWrap (stitch key1 key2 crt img) 3 0 ∧ ∃ es, walk (stitch key1 key2 crt img) 3 0 = some (.ok es) ∧
      Slices (stitch key1 key2 crt img) es [key1, key2, crt, img] := by
  apply walk_of_sections hlen rfl (Nat.zero_le _)
  simp [stitch]

theorem stitch_length (key1 key2 crt img : List UInt8) :
    (stitch key1 key2 crt img).length = 16 + (key1.length + key2.length + crt.length + img.length) := by
  simp only [stitch, prefixed, List.length_append, bytes32_length]
  omega

/-- Unstitching undoes stitching. -/
theorem unstitch_stitch {key1 key2 crt img : List UInt8} {revision : Nat} {m : Machine}
    (hrev : revision ≠ chipRevisionA0)
    (hlen : 16 + (key1.length + key2.length + crt.length + img.length) < 4294967296) (ha : AllocsSucceed m) :
    ∃ fws m', qmromUnstitchFw (stitch key1 key2 crt img) revision m = some (.ok fws, m') ∧
      fws.key1Crt.data = key1 ∧ fws.key2Crt.data = key2 ∧ fws.fwCrt.data = crt ∧ fws.fwImg.data = img := by
  have hsize : 8 ≤ (stitch key1 key2 crt img).length := by
    rw [stitch_length]
    omega
  obtain ⟨_, es, hes, hslices⟩ := walk_stitch (stitch_length key1 key2 crt img ▸ hlen)
  have hlayout : unstitchLayout (stitch key1 key2 crt img) revision = some (.ok (layoutOf es)) := by
    rw [unstitchLayout_walk hrev hsize, hes]
    rfl
  have hrun := unstitchFw_granted hlayout ha
  rw [unstitchCopy_slices hslices] at hrun
  exact ⟨_, _, hrun, rfl, rfl, rfl, rfl⟩

/-- An outside that answers every call with success and zeros. -/
def willing : Machine := machineInit (fun _ => 0) (fun _ => 0) fun _ => ⟨0, fun _ => 0, true⟩

theorem unstitch_stitch_small : ∃ fws m', qmromUnstitchFw (stitch [1, 2] [] [3] [4, 5]) 0xB0 willing = some (.ok fws, m') ∧
    fws.key1Crt.data = [1, 2] ∧ fws.key2Crt.data = [] ∧ fws.fwCrt.data = [3] ∧ fws.fwImg.data = [4, 5] :=
  unstitch_stitch (by decide) (by decide) fun _ _ => rfl

/-! Every file. -/

section Safe
variable {data : List UInt8} {revision : Nat} {m : Machine}

theorem sizesInside_iff (hsize : 8 ≤ data.length) : SizesInside data ↔ walk data 3 0 ≠ none := by
  rw [ne_eq, walk_none]
  constructor
  · intro h ⟨i, hi, t, hreach, hshort⟩
    have := h i (by omega) t ⟨hsize, hreach⟩
    omega
  · intro h i hi t hreach
    by_contra hlt
    exact h ⟨i, by omega, t, hreach.2, by omega⟩

theorem passesChecks_iff (hsize : 8 ≤ data.length) : PassesChecks data ↔ ∃ es, walk data 3 0 = some (.ok es) := by
  rw [walk_ok]
  constructor
  · intro ⟨t, n, hreach, hn, heq⟩
    exact ⟨t, n, hreach.2, hn, heq⟩
  · intro ⟨t, n, hreach, hn, heq⟩
    exact ⟨t, n, ⟨hsize, hreach⟩, hn, heq⟩

theorem sumWraps_iff (hsize : 8 ≤ data.length) : SumWraps data ↔ ¬NoWrap data 3 0 := by
  constructor
  · intro ⟨i, hi, t, n, hreach, hn, hge⟩ hnw
    have := hnw i (by omega) t n hreach.2 hn
    omega
  · intro h
    by_contra hno
    refine h fun i hi t n hreach hn => ?_
    by_contra hge
    exact hno ⟨i, by omega, t, n, ⟨hsize, hreach⟩, hn, by omega⟩

/-- A file without wraps that passes the checks is four sections. -/
theorem stitch_of_walk {es : List Extent} (hdata : data.length < 4294967296) (hnw : NoWrap data 3 0)
    (hes : walk data 3 0 = some (.ok es)) :
    ∃ key1 key2 crt img, data = stitch key1 key2 crt img ∧ Slices data es [key1, key2, crt, img] := by
  obtain ⟨ss, hlength, hss, hdrop⟩ := walk_sections hdata hnw hes
  match ss, hlength with
  | [key1, key2, crt, img], _ =>
    refine ⟨key1, key2, crt, img, ?_, hss⟩
    rw [← List.drop_zero (l := data), hdrop]
    simp [stitch]

/-- The size of the first section is the first size field. -/
theorem key1_length {key1 key2 crt img : List UInt8} (hdata : (stitch key1 key2 crt img).length < 4294967296) :
    le32At (stitch key1 key2 crt img) 0 = some key1.length := by
  rw [stitch_length] at hdata
  have hdrop : (stitch key1 key2 crt img).drop 0 =
      bytes32 key1.length ++ (key1 ++ (prefixed key2 ++ (prefixed crt ++ prefixed img))) := by
    rw [List.drop_zero, stitch, prefixed, List.append_assoc]
  exact le32At_of_drop hdrop (by omega)

/-! What the walk comes to decides what the function does. -/

theorem unstitchSafe_refused (hl : unstitchLayout data revision = some (.error eInval)) : UnstitchSafe data revision m :=
  ⟨_, m, unstitchFw_error hl, fun _ => rfl, fun _ h => nomatch h⟩

theorem not_unstitchSafe_outside (hl : unstitchLayout data revision = none) : ¬UnstitchSafe data revision m := by
  intro ⟨_, _, hrun, _, _⟩
  obtain ⟨_, _, hlayout, _⟩ := bind_some.mp hrun
  rw [(ofOption_some.mp hlayout).1] at hl
  cases hl

/-- What passes the checks is not refused. -/
theorem unstitchFw_not_refused {l : Layout} (hl : unstitchLayout data revision = some (.ok l)) (m m' : Machine) :
    qmromUnstitchFw data revision m ≠ some (.error eInval, m') := by
  intro hrun
  by_cases ha : AllocsSucceed m
  · rw [unstitchFw_granted hl ha] at hrun
    obtain ⟨_, _, hok⟩ := Option.map_eq_some_iff.mp hrun
    cases hok
  · obtain ⟨_, hmem⟩ := unstitchFw_refused hl ha
    rw [hrun] at hmem
    cases hmem

/-- What wraps is not four sections, but it is not refused either. -/
theorem UnstitchSafe.noWrap {l : Layout} (hsafe : UnstitchSafe data revision m) (hdata : data.length < 4294967296)
    (hl : unstitchLayout data revision = some (.ok l)) : NoWrap data 3 0 := by
  by_contra hwrap
  obtain ⟨r, m', hrun, hrefuse, _⟩ := hsafe
  have hr : r = .error eInval := by
    apply hrefuse
    rintro key1 key2 crt img rfl
    exact hwrap (walk_stitch hdata).1
  subst hr
  exact unstitchFw_not_refused hl m m' hrun

/-- On four sections it comes down to the first of them, where the function takes the file. -/
theorem unstitchSafe_stitch {es : List Extent} {key1 key2 crt img : List UInt8}
    (hl : unstitchLayout (stitch key1 key2 crt img) revision = some (.ok (layoutOf es)))
    (hslices : Slices (stitch key1 key2 crt img) es [key1, key2, crt, img]) :
    UnstitchSafe (stitch key1 key2 crt img) revision m ↔ (AllocsSucceed m → hbkLoc < key1.length) := by
  constructor
  · intro ⟨r, m', hrun, _, hkey⟩ ha
    rw [unstitchFw_granted hl ha, unstitchCopy_slices hslices] at hrun
    cases hrun
    exact hkey _ rfl
  · intro hkey
    have hfour : ¬∀ k1 k2 c i, stitch key1 key2 crt img ≠ stitch k1 k2 c i := fun h => h _ _ _ _ rfl
    by_cases ha : AllocsSucceed m
    · have hrun := unstitchFw_granted (m := m) hl ha
      rw [unstitchCopy_slices hslices] at hrun
      refine ⟨_, _, hrun, fun h => absurd h hfour, fun fws hfws => ?_⟩
      cases hfws
      exact hkey ha
    · obtain ⟨m', hrun⟩ := unstitchFw_refused hl ha
      exact ⟨_, m', hrun, fun h => absurd h hfour, fun _ h => nomatch h⟩

/-- A file that passes the checks is safe where no sum wraps and its first section is long enough. -/
theorem unstitchSafe_walked {es : List Extent} (hrev : revision ≠ chipRevisionA0) (hsize : 8 ≤ data.length)
    (hdata : data.length < 4294967296) (hes : walk data 3 0 = some (.ok es)) :
    UnstitchSafe data revision m ↔
      NoWrap data 3 0 ∧ (AllocsSucceed m → ∀ n, le32At data 0 = some n → hbkLoc < n) := by
  have hl : unstitchLayout data revision = some (.ok (layoutOf es)) := by
    rw [unstitchLayout_walk hrev hsize, hes]
    rfl
  constructor
  · intro hsafe
    have hnw := hsafe.noWrap hdata hl
    refine ⟨hnw, fun ha n hn => ?_⟩
    obtain ⟨key1, key2, crt, img, rfl, hslices⟩ := stitch_of_walk hdata hnw hes
    rw [key1_length hdata] at hn
    cases hn
    exact (unstitchSafe_stitch hl hslices).mp hsafe ha
  · intro ⟨hnw, hkey⟩
    obtain ⟨key1, key2, crt, img, rfl, hslices⟩ := stitch_of_walk hdata hnw hes
    exact (unstitchSafe_stitch hl hslices).mpr fun ha => hkey ha _ (key1_length hdata)

/-- The function is safe on a file exactly where every size field it comes to lies in the file,
no sum wraps in a file that passes the checks, and the key 1 certificate of a file it takes has
more than 12 bytes. -/
theorem unstitch_safe_iff (hrev : revision ≠ chipRevisionA0) (hdata : data.length < 4294967296) :
    UnstitchSafe data revision m ↔ SizesInside data ∧
      (PassesChecks data → ¬SumWraps data ∧ (AllocsSucceed m → ∀ n, le32At data 0 = some n → hbkLoc < n)) := by
  by_cases hsize : data.length < 8
  · -- refused for its size, before any size field
    have hlayout : unstitchLayout data revision = some (.error eInval) := by
      rw [unstitchLayout, if_neg hrev, if_pos hsize]
    refine iff_of_true (unstitchSafe_refused hlayout) ⟨fun i _ t hreach => ?_, fun ⟨t, n, hreach, _⟩ => ?_⟩
    · exact absurd hreach.1 (by omega)
    · exact absurd hreach.1 (by omega)
  · have hsize : 8 ≤ data.length := by omega
    rw [sizesInside_iff hsize, passesChecks_iff hsize, sumWraps_iff hsize, not_not]
    have hlayout := unstitchLayout_walk hrev hsize
    cases hes : walk data 3 0 with
    | none =>
      rw [hes] at hlayout
      exact iff_of_false (not_unstitchSafe_outside hlayout) fun h => h.1 rfl
    | some r =>
      cases r with
      | error rc =>
        rw [hes] at hlayout
        have hrc := unstitchLayout_error hlayout
        subst hrc
        exact iff_of_true (unstitchSafe_refused hlayout) ⟨(fun h => nomatch h), fun ⟨_, h⟩ => nomatch h⟩
      | ok es =>
        rw [unstitchSafe_walked hrev hsize hdata hes]
        constructor
        · intro h
          exact ⟨(fun h => nomatch h), fun _ => h⟩
        · intro ⟨_, hpass⟩
          exact hpass ⟨es, rfl⟩

end Safe

/-- A file of one section of four bytes and nothing behind it: the second size is read past the
end. -/
def truncatedFile : List UInt8 := [4, 0, 0, 0, 1, 2, 3, 4]

theorem unstitch_safe_truncated : UnstitchSafe truncatedFile 0xB0 willing ↔ SizesInside truncatedFile ∧
    (PassesChecks truncatedFile → ¬SumWraps truncatedFile ∧
      (AllocsSucceed willing → ∀ n, le32At truncatedFile 0 = some n → hbkLoc < n)) :=
  unstitch_safe_iff (by decide) (by decide)

theorem not_unstitch_safe : ¬∀ data revision m, revision ≠ chipRevisionA0 → data.length < 4294967296 →
    UnstitchSafe data revision m := by
  intro h
  obtain ⟨r, m', hrun, _⟩ := h truncatedFile 0xB0 willing (by decide) (by decide)
  have hnone : qmromUnstitchFw truncatedFile 0xB0 willing = none := rfl
  rw [hnone] at hrun
  cases hrun

end Qm35.Qmrom
