import Dkftpbench.Nbbio

/-!
# The circular buffer is a bounded byte queue

What the buffer holds is the window of the array from `getFrom` up to `putTo`. A
store of at most `contigBytesFree` bytes at `putTo` appends to it, and an advance of
`getFrom` by at most `contigBytesUsed` takes a prefix off. Every operation is one or
two such moves, and what two moves do in a row is settled once.
-/
namespace Dkftpbench.Nbbio
open CLib RingWindow

/-- The bytes that were put in and not yet taken out, oldest first. -/
def held (s : Nbbio) : List Byte := upTo nbbioBufLen s.buf s.getFrom s.putTo

structure Valid (s : Nbbio) : Prop where
  getFrom_nonneg : 0 ≤ s.getFrom
  getFrom_lt : s.getFrom < nbbioBufLen
  putTo_nonneg : 0 ≤ s.putTo
  putTo_lt : s.putTo < nbbioBufLen

namespace Access

/-- The index `i` is that of a held byte. -/
def HeldAt (a : Access) (i : ℤ) : Prop :=
  (i-a.getFrom) % nbbioBufLen < (a.putTo-a.getFrom) % nbbioBufLen

/-- The range lies in the array, and a store spares the held bytes. -/
structure Safe (a : Access) : Prop where
  off_nonneg : 0 ≤ a.off
  len_nonneg : 0 ≤ a.len
  off_add_len : a.off+a.len ≤ nbbioBufLen
  spares : a.store = true → ∀ i, a.off ≤ i → i < a.off+a.len → ¬ a.HeldAt i

end Access

/-- One operation: what it put in, what it took out and which ranges it used. -/
structure Moves (s s' : Nbbio) (got gave : List Byte) (ranges : List Access) : Prop where
  valid : s'.Valid
  held : s.held ++ got = gave ++ s'.held
  safe : ∀ a ∈ ranges, a.Safe

section
variable {s s' s'' : Nbbio} {got got' gave gave' bs : List Byte} {ranges ranges' : List Access}
variable {len q : ℤ} {n : ℕ}

theorem Moves.trans (h : Moves s s' got gave ranges) (h' : Moves s' s'' got' gave' ranges') :
    Moves s s'' (got ++ got') (gave ++ gave') (ranges ++ ranges') := by
  refine ⟨h'.valid, ?_, ?_⟩
  · calc s.held ++ (got ++ got') = gave ++ (s'.held ++ got') := by
          rw [← List.append_assoc, h.held, List.append_assoc]
      _ = (gave ++ gave') ++ s''.held := by rw [h'.held, List.append_assoc]
  · intro a ha
    rcases List.mem_append.1 ha with ha | ha
    · exact h.safe a ha
    · exact h'.safe a ha

theorem Moves.rfl (hv : s.Valid) : Moves s s [] [] [] := ⟨hv, by simp, by simp⟩

theorem Moves.of_ranges (hv : s.Valid) (ha : ∀ a ∈ ranges, a.Safe) : Moves s s [] [] ranges :=
  ⟨hv, by simp, ha⟩

theorem held_length : (s.held.length : ℤ) = s.bytesUsed := upTo_length (by decide)

theorem held_init : s.init.held = [] := rfl

theorem init_valid : s.init.Valid := by constructor <;> simp [init, nbbioBufLen]

theorem contigBytesFree_nonneg (hv : s.Valid) : 0 ≤ s.contigBytesFree := by
  obtain ⟨h1, h2, h3, h4⟩ := hv
  unfold contigBytesFree
  unfold nbbioBufLen at *
  split <;> split <;> omega

/-- The free part is in one piece, or it is cut in two by the end of the array. -/
theorem contigBytesFree_cases (hv : s.Valid) : s.contigBytesFree = s.bytesFree ∨
    s.getFrom ≠ 0 ∧ s.putTo+s.contigBytesFree = nbbioBufLen ∧
      s.contigBytesFree+(s.getFrom-1) = s.bytesFree := by
  obtain ⟨h1, h2, h3, h4⟩ := hv
  unfold contigBytesFree bytesFree bytesUsed
  unfold nbbioBufLen at *
  split <;> split <;> omega

theorem contigBytesFree_of_putTo_eq_zero (hp : s.putTo = 0) (hg : 0 < s.getFrom) :
    s.contigBytesFree = s.getFrom-1 := by
  unfold contigBytesFree
  rw [hp, if_pos hg, if_neg hg.ne']
  ring

theorem contigBytesFree_le (hv : s.Valid) : s.contigBytesFree ≤ s.bytesFree := by
  obtain ⟨h1, h2, h3, h4⟩ := hv
  unfold contigBytesFree bytesFree bytesUsed
  unfold nbbioBufLen at *
  split <;> split <;> omega

theorem contigBytesFree_lt (hv : s.Valid) : s.contigBytesFree < nbbioBufLen := by
  have hle := contigBytesFree_le hv
  unfold bytesFree bytesUsed at hle
  unfold nbbioBufLen at *
  omega

theorem putTo_add_le (hv : s.Valid) (h : len ≤ s.contigBytesFree) :
    s.putTo+len ≤ nbbioBufLen := by
  obtain ⟨h1, h2, h3, h4⟩ := hv
  unfold contigBytesFree at h
  unfold nbbioBufLen at *
  split at h <;> split at h <;> omega

theorem contigBytesUsed_nonneg (hv : s.Valid) : 0 ≤ s.contigBytesUsed := by
  obtain ⟨h1, h2, h3, h4⟩ := hv
  unfold contigBytesUsed
  split <;> omega

theorem contigBytesUsed_le (hv : s.Valid) : s.contigBytesUsed ≤ s.bytesUsed := by
  obtain ⟨h1, h2, h3, h4⟩ := hv
  unfold contigBytesUsed bytesUsed
  unfold nbbioBufLen at *
  split <;> omega

theorem getFrom_add_le (hv : s.Valid) (h : len ≤ s.contigBytesUsed) :
    s.getFrom+len ≤ nbbioBufLen := by
  obtain ⟨h1, h2, h3, h4⟩ := hv
  unfold contigBytesUsed at h
  split at h <;> omega

theorem store_safe (hv : s.Valid) (h0 : 0 ≤ len) (h : len ≤ s.contigBytesFree) :
    (s.store s.putTo len).Safe := by
  refine ⟨hv.putTo_nonneg, h0, putTo_add_le hv h, ?_⟩
  intro _ i hi hlt
  have hle := h.trans (contigBytesFree_le hv)
  unfold Access.HeldAt
  simp only [store] at *
  unfold bytesFree bytesUsed at hle
  unfold nbbioBufLen at *
  omega

theorem load_safe (hv : s.Valid) (h0 : 0 ≤ len) (h : len ≤ s.contigBytesUsed) :
    (s.load s.getFrom len).Safe :=
  ⟨hv.getFrom_nonneg, h0, getFrom_add_le hv h, by simp [load]⟩

/-- The bytes stored at `putTo` are appended, also where `putTo` goes back to 0. -/
theorem moves_copyIn (hv : s.Valid) (hbs : (bs.length : ℤ) ≤ len) (hfit : len ≤ s.contigBytesFree)
    (h0 : 0 ≤ q) (hlt : q < nbbioBufLen)
    (hq : q % nbbioBufLen = (s.putTo+bs.length) % nbbioBufLen) :
    Moves s ⟨overwrite s.buf s.putTo bs, s.getFrom, q, s.linelen, s.lastchar⟩ bs []
      [s.store s.putTo len] := by
  refine ⟨⟨hv.getFrom_nonneg, hv.getFrom_lt, h0, hlt⟩, ?_, ?_⟩
  · have hused : (s.putTo-s.getFrom) % nbbioBufLen+bs.length < nbbioBufLen := by
      have := contigBytesFree_le hv
      unfold bytesFree bytesUsed at this
      omega
    symm
    calc upTo nbbioBufLen (overwrite s.buf s.putTo bs) s.getFrom q
        = upTo nbbioBufLen (overwrite s.buf s.putTo bs) s.getFrom (s.putTo+bs.length) :=
          upTo_mod hq
      _ = s.held ++ bs :=
          upTo_overwrite (by decide) hv.putTo_nonneg (putTo_add_le hv (hbs.trans hfit)) hused
  · intro a ha
    rw [List.mem_singleton] at ha
    subst ha
    exact store_safe hv (by omega) hfit

theorem slice_eq_window (hv : s.Valid) (h : (n : ℤ) ≤ s.contigBytesUsed) :
    s.slice s.getFrom n = window nbbioBufLen s.buf s.getFrom n := by
  apply List.map_congr_left
  intro k hk
  rw [Int.toNat_natCast, List.mem_range] at hk
  have hle := getFrom_add_le hv h
  have := hv.getFrom_nonneg
  rw [Int.emod_eq_of_lt] <;> omega

/-- The bytes that `getFrom` passes are the oldest ones. -/
theorem moves_advance (hv : s.Valid) (hn : (n : ℤ) ≤ len) (hfit : len ≤ s.contigBytesUsed)
    (h0 : 0 ≤ q) (hlt : q < nbbioBufLen) (hq : q % nbbioBufLen = (s.getFrom+n) % nbbioBufLen) :
    Moves s { s with getFrom := q } [] (s.slice s.getFrom n)
      [s.load s.getFrom len] := by
  refine ⟨⟨h0, hlt, hv.putTo_nonneg, hv.putTo_lt⟩, ?_, ?_⟩
  · have hle : (n : ℤ) ≤ (s.putTo-s.getFrom) % nbbioBufLen :=
      (hn.trans hfit).trans (contigBytesUsed_le hv)
    rw [List.append_nil, slice_eq_window hv (hn.trans hfit)]
    calc s.held = window nbbioBufLen s.buf s.getFrom n ++
            upTo nbbioBufLen s.buf (s.getFrom+n) s.putTo := upTo_add (by decide) hle
      _ = _ := by rw [← upTo_start_mod hq, held]
  · intro a ha
    rw [List.mem_singleton] at ha
    subst ha
    exact load_safe hv (by omega) hfit

/-- A `put` that there is no room for changes nothing. -/
theorem put_refused {p : List Byte} (h : s.bytesFree < p.length) :
    ∃ e, e ≠ 0 ∧ s.put p = (e, s, []) := by
  unfold put
  rw [if_pos h]
  split
  · exact ⟨EMSGSIZE, by decide, rfl⟩
  · exact ⟨EWOULDBLOCK, by decide, rfl⟩

/-- What does not fit before the end of the array continues at its start. -/
theorem put_accepted {p : List Byte} (hv : s.Valid) (h : p.length ≤ s.bytesFree) :
    ∃ s' ranges, s.put p = (0, s', ranges) ∧ Moves s s' p [] ranges := by
  obtain ⟨hget, hgetlt, hput, -⟩ := id hv
  have hnn := contigBytesFree_nonneg hv
  unfold put
  rw [if_neg (not_lt.2 h)]
  rcases le_or_gt (p.length : ℤ) s.contigBytesFree with hfit | hsplit
  · have hcopy : (if s.contigBytesFree > p.length then (p.length : ℤ) else s.contigBytesFree) =
        p.length := by split <;> omega
    have hend := putTo_add_le hv hfit
    simp only [hcopy, Int.toNat_natCast, List.take_length, sub_self, lt_irrefl, gt_iff_lt,
      if_false, copyIn_putTo]
    split
    · next hwrap =>
      refine ⟨_, _, rfl, moves_copyIn hv le_rfl hfit le_rfl (by decide) ?_⟩
      rw [hwrap]
      decide
    · next hwrap =>
      exact ⟨_, _, rfl, moves_copyIn hv le_rfl hfit (by omega) (by omega) rfl⟩
  · have hcopy : (if s.contigBytesFree > p.length then (p.length : ℤ) else s.contigBytesFree) =
        s.contigBytesFree := if_neg (by omega)
    obtain ⟨hzero, hwrap, htotal⟩ := (contigBytesFree_cases hv).resolve_left (by omega)
    have htake : ((p.take s.contigBytesFree.toNat).length : ℤ) = s.contigBytesFree := by
      rw [List.length_take]
      omega
    have hdrop : ((p.drop s.contigBytesFree.toNat).length : ℤ) = p.length-s.contigBytesFree := by
      rw [List.length_drop]
      omega
    have hfirst := moves_copyIn (q := 0) hv htake.le le_rfl le_rfl (by decide)
      (by rw [htake, hwrap]; decide)
    have hrest : p.length-s.contigBytesFree ≤
        contigBytesFree ⟨overwrite s.buf s.putTo (p.take s.contigBytesFree.toNat), s.getFrom, 0,
          s.linelen, s.lastchar⟩ := by
      refine le_of_le_of_eq ?_ (contigBytesFree_of_putTo_eq_zero rfl ?_).symm <;> dsimp only <;>
        omega
    have hsecond := moves_copyIn (q := p.length-s.contigBytesFree) hfirst.valid hdrop.le hrest
      (by omega) (by omega) (by rw [hdrop, zero_add])
    simp only [hcopy, copyIn_putTo]
    rw [if_pos hwrap, if_pos (by omega)]
    refine ⟨_, _, rfl, ?_⟩
    have := hfirst.trans hsecond
    rwa [List.take_append_drop] at this

theorem isEmpty_eq_false_iff (hv : s.Valid) : s.isEmpty = false ↔ 0 < s.contigBytesUsed := by
  obtain ⟨h1, h2, h3, h4⟩ := hv
  unfold isEmpty contigBytesUsed
  rw [beq_eq_false_iff_ne]
  split <;> omega

theorem readc_moves (hv : s.Valid) (hne : s.isEmpty = false) :
    Moves s s.readc.2.1 [] [s.readc.1] s.readc.2.2 := by
  have hused := (isEmpty_eq_false_iff hv).1 hne
  have h : Moves s { s with getFrom := (s.getFrom+1) % nbbioBufLen } [] (s.slice s.getFrom (1 : ℕ))
      [s.load s.getFrom 1] :=
    moves_advance hv (by simp) (by omega) (Int.emod_nonneg _ (by decide))
      (Int.emod_lt_of_pos _ (by decide)) (Int.emod_emod_of_dvd _ dvd_rfl)
  simpa [slice, readc] using h

theorem slice_take {off : ℤ} {m : ℕ} (hm : (m : ℤ) ≤ len) :
    (s.slice off len).take m = s.slice off m := by
  unfold slice
  rw [← List.map_take, List.take_range, Int.toNat_natCast, Nat.min_eq_left (by omega)]

/-- One level of `flushTo`, from what the level below does where it is reached. -/
theorem flushTo_step {k : Kernel} {fuel i : ℕ} (hv : s.Valid)
    (hrec : s.getFrom+s.contigBytesUsed = nbbioBufLen → ∀ s' : Nbbio, s'.Valid → s'.getFrom = 0 →
      ∃ r, flushTo k fuel (i+1) s' = some r ∧ Moves s' r.2.1 [] r.2.2.1 r.2.2.2) :
    ∃ r, flushTo k (fuel+1) i s = some r ∧ Moves s r.2.1 [] r.2.2.1 r.2.2.2 := by
  have hnn := contigBytesUsed_nonneg hv
  have hend := getFrom_add_le hv le_rfl
  have hget := hv.getFrom_nonneg
  have hsafe := List.forall_mem_singleton.2 (load_safe hv hnn le_rfl)
  rw [flushTo]
  dsimp only
  split
  · exact ⟨_, rfl, .rfl hv⟩
  · split
    · exact ⟨_, rfl, .of_ranges hv hsafe⟩
    · next nwrite hwrite =>
      have hle := k.write_le _ _ _ hwrite
      rw [slice, List.length_map, List.length_range] at hle
      rw [slice_take (by omega)]
      split
      · next hwrap =>
        have hfirst := moves_advance (n := nwrite) (q := 0) hv (by omega) le_rfl le_rfl (by decide)
          (by rw [hwrap]; decide)
        split
        · obtain ⟨r, hr, hsecond⟩ := hrec (by omega) _ hfirst.valid rfl
          rw [hr]
          exact ⟨_, rfl, hfirst.trans hsecond⟩
        · exact ⟨_, rfl, hfirst⟩
      · exact ⟨_, rfl, moves_advance hv (by omega) le_rfl (by omega) (by omega) rfl⟩

/-- After the wrap the second `write` starts at index 0 and cannot wrap again. -/
theorem flushTo_moves (k : Kernel) (i : ℕ) (hv : s.Valid) :
    ∃ r, flushTo k 2 i s = some r ∧ Moves s r.2.1 [] r.2.2.1 r.2.2.2 := by
  refine flushTo_step hv fun _ s' hv' hzero => flushTo_step hv' fun hwrap => ?_
  have hlt := hv'.putTo_lt
  unfold contigBytesUsed at hwrap
  rw [hzero, if_pos hv'.putTo_nonneg] at hwrap
  omega

theorem fillFrom_moves (k : Kernel) (hv : s.Valid) :
    Moves s (s.fillFrom k).2.1 (s.fillFrom k).2.2.1 [] (s.fillFrom k).2.2.2 := by
  have hput := hv.putTo_nonneg
  have hnn := contigBytesFree_nonneg hv
  have hend := putTo_add_le hv le_rfl
  have hsafe := List.forall_mem_singleton.2 (store_safe hv hnn le_rfl)
  unfold fillFrom
  dsimp only [copyIn]
  split
  · exact .rfl hv
  · split
    · exact .of_ranges hv hsafe
    · next bs hread =>
      have hle : (bs.length : ℤ) ≤ s.contigBytesFree := by
        have := k.read_le _ _ _ hread
        omega
      split
      · exact .of_ranges hv hsafe
      · split
        · next hwrap =>
          have hfirst := moves_copyIn (q := 0) hv hle le_rfl le_rfl (by decide)
            (by rw [hwrap]; decide)
          have hnn' := contigBytesFree_nonneg hfirst.valid
          have hlt := contigBytesFree_lt hfirst.valid
          split
          · split
            · exact hfirst
            · split
              · have hsafe' := List.forall_mem_singleton.2 (store_safe hfirst.valid hnn' le_rfl)
                simpa using hfirst.trans (.of_ranges hfirst.valid hsafe')
              · next cs hread' =>
                have hle' := k.read_le _ _ _ hread'
                exact hfirst.trans (moves_copyIn hfirst.valid (by omega) le_rfl (by omega)
                  (by omega) (by rw [zero_add]))
          · exact hfirst
        · next hwrap => exact moves_copyIn hv hle le_rfl (by omega) (by omega) rfl

end

/-- The states after `init` and any further calls, with all the bytes put in and
taken out since. `put` may be refused, and `readc` needs a byte to read. -/
inductive Reachable : Nbbio → List Byte → List Byte → Prop
  | init (s : Nbbio) : Reachable s.init [] []
  | put {s : Nbbio} {inp out : List Byte} (p : List Byte) : Reachable s inp out →
      Reachable (s.put p).2.1 (if (s.put p).1 = 0 then inp ++ p else inp) out
  | readc {s : Nbbio} {inp out : List Byte} : Reachable s inp out → s.isEmpty = false →
      Reachable s.readc.2.1 inp (out ++ [s.readc.1])
  | fillFrom {s : Nbbio} {inp out : List Byte} (k : Kernel) : Reachable s inp out →
      Reachable (s.fillFrom k).2.1 (inp ++ (s.fillFrom k).2.2.1) out
  | flushTo {s s' : Nbbio} {inp out gave : List Byte} {e : ℤ} {ranges : List Access} (k : Kernel) :
      Reachable s inp out → flushTo k 2 0 s = some (e, s', gave, ranges) →
      Reachable s' inp (out ++ gave)

theorem Moves.run_put {s s' : Nbbio} {inp out got : List Byte} {ranges : List Access}
    (h : Moves s s' got [] ranges) (hr : QueueRun (nbbioBufLen-1).toNat s.held inp out) :
    QueueRun (nbbioBufLen-1).toNat s'.held (inp ++ got) out := by
  have heq : s'.held = s.held ++ got := by simpa using h.held.symm
  have hlen := held_length (s := s')
  have hlt : s'.bytesUsed < nbbioBufLen := Int.emod_lt_of_pos _ (by decide)
  rw [heq] at hlen ⊢
  refine .put got hr ?_
  rw [List.length_append] at hlen
  omega

theorem Moves.run_take {s s' : Nbbio} {inp out gave : List Byte} {ranges : List Access}
    (h : Moves s s' [] gave ranges) (hr : QueueRun (nbbioBufLen-1).toNat s.held inp out) :
    QueueRun (nbbioBufLen-1).toNat s'.held inp (out ++ gave) := by
  have heq : s.held = gave ++ s'.held := by simpa using h.held
  exact .take gave (heq ▸ hr)

theorem Reachable.valid_run {s : Nbbio} {inp out : List Byte} (h : Reachable s inp out) :
    s.Valid ∧ QueueRun (nbbioBufLen-1).toNat s.held inp out := by
  induction h with
  | init s =>
      refine ⟨init_valid, ?_⟩
      rw [held_init]
      exact .start
  | @put s inp out p _ ih =>
      rcases lt_or_ge s.bytesFree p.length with hfull | hroom
      · obtain ⟨e, he, hput⟩ := put_refused hfull
        rw [hput, if_neg he]
        exact ih
      · obtain ⟨s', ranges, hput, hm⟩ := put_accepted ih.1 hroom
        rw [hput, if_pos rfl]
        exact ⟨hm.valid, hm.run_put ih.2⟩
  | readc _ hne ih =>
      have hm := readc_moves ih.1 hne
      exact ⟨hm.valid, hm.run_take ih.2⟩
  | fillFrom k _ ih =>
      have hm := fillFrom_moves k ih.1
      exact ⟨hm.valid, hm.run_put ih.2⟩
  | flushTo k _ hflush ih =>
      obtain ⟨r, hr, hm⟩ := flushTo_moves k 0 ih.1
      cases hr.symm.trans hflush
      exact ⟨hm.valid, hm.run_take ih.2⟩

/-- The buffer is a byte queue of capacity `BUFLEN-1`, at every point of every run;
there `put` succeeds exactly where there is room, `flushTo` returns, and the ranges
that any next operation uses are safe. -/
theorem reachable_fifo {s : Nbbio} {inp out : List Byte} (h : Reachable s inp out) :
    QueueRun (nbbioBufLen-1).toNat s.held inp out ∧
      inp = out ++ s.held ∧
      s.bytesUsed = s.held.length ∧ s.bytesFree = nbbioBufLen-1-s.held.length ∧
      (0 ≤ s.getFrom ∧ s.getFrom < nbbioBufLen ∧ 0 ≤ s.putTo ∧ s.putTo < nbbioBufLen) ∧
      (∀ p, ((s.put p).1 = 0 ↔ p.length ≤ s.bytesFree) ∧
        ((s.put p).1 ≠ 0 → (s.put p).2.1 = s) ∧ ∀ a ∈ (s.put p).2.2, a.Safe) ∧
      (s.isEmpty = false → ∀ a ∈ s.readc.2.2, a.Safe) ∧
      ∀ k : Kernel, (∀ a ∈ (s.fillFrom k).2.2.2, a.Safe) ∧
        ∃ r, flushTo k 2 0 s = some r ∧ ∀ a ∈ r.2.2.2, a.Safe := by
  obtain ⟨hv, hrun⟩ := h.valid_run
  refine ⟨hrun, hrun.conserved, held_length.symm, ?_,
    ⟨hv.getFrom_nonneg, hv.getFrom_lt, hv.putTo_nonneg, hv.putTo_lt⟩, ?_, ?_, ?_⟩
  · rw [held_length, bytesFree]
  · intro p
    rcases lt_or_ge s.bytesFree p.length with hfull | hroom
    · obtain ⟨e, he, hput⟩ := put_refused hfull
      rw [hput]
      exact ⟨⟨fun h0 => absurd h0 he, fun hle => absurd hle (not_le.2 hfull)⟩, fun _ => rfl,
        by simp⟩
    · obtain ⟨s', ranges, hput, hm⟩ := put_accepted hv hroom
      rw [hput]
      exact ⟨⟨fun _ => hroom, fun _ => rfl⟩, fun h0 => absurd rfl h0, hm.safe⟩
  · intro hne
    exact (readc_moves hv hne).safe
  · intro k
    obtain ⟨r, hr, hm⟩ := flushTo_moves k 0 hv
    exact ⟨(fillFrom_moves k hv).safe, r, hr, hm.safe⟩

/-- Two bytes put in and one of them read. -/
theorem reachable_fifo_ab :
    let s := (init ⟨fun _ => 0, 5, 7, 0, 0⟩ |>.put [97, 98]).2.1.readc.2.1
    [97, 98] = [97] ++ s.held ∧ s.bytesUsed = 1 :=
  have h := reachable_fifo (.readc (.put [97, 98] (.init ⟨fun _ => 0, 5, 7, 0, 0⟩)) (by decide))
  ⟨h.2.1, by decide⟩

end Dkftpbench.Nbbio
