import Dkftpbench.DialogueClient

/-!
# The client and the server stay in step

What the client awaits is, in every state of every run, what is under way: queued in the
client, on its way to the server, at the server or answered by a reply on its way back.
So every reply meets the state that awaits it, whatever the user does in between, and
a reply of several lines is passed over up to its own last line.
-/
namespace Dkftpbench.Dialogue
open CLib Watch FtpClientProto Relay

/-- The replies that announce another one do so for the reply to RETR that comes next. -/
def Marked (serving : Option Request) : List Answer → Prop
  | [] => True
  | a :: back =>
    (a.mark = true → a.request = .retr ∧ (answered back ++ serving.toList).head? = some .retr) ∧ Marked serving back

structure InStep (w : Dialogue) (n : Heard) : Prop where
  ready : Ready w.client
  reading : w.client.multiline = true ∧ Closed w.client.status w.rest ∨ w.client.multiline = false ∧ w.rest = []
  clean : ∀ l ∈ w.rest, LF ∉ l.text
  whole : ∃ ls, (∀ l ∈ ls, LF ∉ l) ∧ w.out = bytes ls
  serving : ∀ r k, w.serving = some (r, k+1) → r = .retr
  marked : Marked (w.serving.map Prod.fst) w.back
  agree : w.places.flatten = expected n w.client
  accounts : n.asked ++ unsent w.client = n.answers.map Prod.fst ++ w.places.flatten
  status : w.client.state ≠ .retr → w.client.status = n.lastCode
  acked : n.acked = true → w.client.state = .retr

/-- The client has hung up, or it is in step. -/
def Orderly (w : Dialogue) (n : Heard) : Prop := w.client.state = .uninit ∧ n.acked = false ∨ InStep w n

section
variable {w w' : Dialogue} {n : Heard} {s s' : FtpClientProto} {a : Answer} {back : List Answer} {e : ℤ} {o : Op}
variable {line : List Byte} {r : Request} {serving : Option Request} {k : ℕ} {others : List Request} {l : Line} {ls : List Line}

theorem answered_concat : answered (back ++ [a]) = answered back ++ if a.mark = true then [] else [a.request] := by
  cases ha : a.mark <;> simp [answered, ha]

theorem answered_mark (ha : a.mark = true) : answered (a :: back) = answered back := by simp [answered, ha]

theorem answered_final (ha : a.mark = false) : answered (a :: back) = a.request :: answered back := by
  simp [answered, ha]

/-- The server goes on to what was under way to it. -/
theorem Marked.taken (h : Marked none back) : Marked (some r) back := by
  induction back with
  | nil => trivial
  | cons a back ih =>
      refine ⟨fun ha => ?_, ih h.2⟩
      obtain ⟨hretr, hhead⟩ := h.1 ha
      rw [Option.toList_none, List.append_nil] at hhead
      rw [List.head?_append, hhead]
      exact ⟨hretr, rfl⟩

theorem Marked.mark (h : Marked (some .retr) back) (ha : a.mark = true) (hretr : a.request = .retr) :
    Marked (some .retr) (back ++ [a]) := by
  induction back with
  | nil => exact ⟨fun _ => ⟨hretr, rfl⟩, trivial⟩
  | cons b back ih =>
      rw [List.cons_append]
      refine ⟨fun hb => ?_, ih h.2⟩
      rw [answered_concat, if_pos ha, List.append_nil]
      exact h.1 hb

theorem Marked.answer (h : Marked (some r) back) (ha : a.mark = false) (hr : a.request = r) :
    Marked none (back ++ [a]) := by
  induction back with
  | nil =>
      refine ⟨fun hmark => ?_, trivial⟩
      cases ha.symm.trans hmark
  | cons b back ih =>
      rw [List.cons_append]
      refine ⟨fun hb => ?_, ih h.2⟩
      rw [answered_concat, ha, hr]
      simpa using h.1 hb

/-- The state that awaits the reply to RETR. -/
theorem state_of_retr (h : (awaited s).head? = some .retr) : s.state = .retr := by
  cases hst : s.state with
  | retr => rfl
  | init =>
      simp only [awaited, hst] at h
      split at h <;> cases h
  | _ => simp [awaited, hst] at h

/-- Two replies are awaited only where the first one is the greeting. -/
theorem others_eq_nil (h : awaited s = r :: others) (hr : r ≠ .hello) : others = [] := by
  cases hst : s.state with
  | init =>
      simp only [awaited, hst] at h
      split at h
      · exact absurd (List.cons.inj h).1.symm hr
      · cases h
  | _ => simp_all [awaited]

/-- Along the lines of a reply. -/
theorem reading_next {status : ℤ} (h : Closed status (l :: ls)) : closes status l = true ∧ ls = [] ∨
    closes status l = false ∧ Closed status ls := by
  cases ls with
  | nil => exact .inl ⟨h, rfl⟩
  | cons l' ls => exact .inr h

/-- A queued line is sent as it is. -/
theorem send_cases (h : Ready w.client) (hs : w.step .send = some w') : ∃ line, Sends w.client line ∧
    w' = { w with client := w.client.advanceOutput, out := w.out ++ (line ++ [LF]) } := by
  obtain ⟨⟨buf, len⟩, hout, rfl⟩ := Option.map_eq_some_iff.1 hs
  rcases h.output with hlen | ⟨line, hline⟩
  · simp [getOutput, isOutputReady, hlen] at hout
  · cases hline.getOutput.symm.trans hout
    exact ⟨line, hline, by simp⟩

/-- The server goes on to the next line. -/
theorem take_cases (h : ∃ ls, (∀ l ∈ ls, LF ∉ l) ∧ w.out = bytes ls) (hs : w.step (.take k) = some w') :
    ∃ line ls, LF ∉ line ∧ (∀ l ∈ ls, LF ∉ l) ∧ w.out = line ++ LF :: bytes ls ∧ w.serving = none ∧
      (Request.ofLine line = .retr ∨ k = 0) ∧ w' = { w with serving := some (.ofLine line, k), out := bytes ls } := by
  obtain ⟨ls, hls, hout⟩ := h
  simp only [step] at hs
  split at hs
  · next line out hserving hcut =>
    split at hs
    · next hk =>
      cases hs
      cases ls with
      | nil =>
          rw [hout] at hcut
          cases hcut
      | cons l ls =>
          have hl := hls l List.mem_cons_self
          rw [hout, bytes_cons, cutLine_append hl] at hcut
          cases hcut
          exact ⟨_, ls, hl, fun l hl => hls l (.tail _ hl), by rw [hout, bytes_cons], hserving, hk, rfl⟩
    · cases hs
  · cases hs

theorem mark_cases (hs : w.step (.mark a) = some w') : ∃ r k, w.serving = some (r, k+1) ∧ a.request = r ∧
    a.mark = true ∧ w' = { w with serving := some (r, k), back := w.back ++ [a] } := by
  simp only [step] at hs
  split at hs
  · next r k hserving =>
    split at hs
    · next ha =>
      cases hs
      exact ⟨r, k, hserving, ha.1, ha.2, rfl⟩
    · cases hs
  · cases hs

theorem answer_cases (hs : w.step (.answer a) = some w') : ∃ r, w.serving = some (r, 0) ∧ a.request = r ∧
    a.mark = false ∧ w' = { w with serving := none, back := w.back ++ [a] } := by
  simp only [step] at hs
  split at hs
  · next r hserving =>
    split at hs
    · next ha =>
      cases hs
      exact ⟨r, hserving, ha.1, ha.2, rfl⟩
    · cases hs
  · cases hs

/-- The next line of the reply, or the first one of the next reply. -/
theorem receive_cases (hs : w.step .receive = some w') : w.client.state ≠ .uninit ∧
    ((∃ l rest e c, w.rest = l :: rest ∧ w.client.giveInput l = some (e, c) ∧
      w' = { w with client := c, rest := rest }) ∨
    ∃ a back e c, w.rest = [] ∧ w.back = a :: back ∧ w.client.giveInput a.first = some (e, c) ∧
      w' = { w with client := c, rest := a.rest, back := back }) := by
  simp only [step, receive] at hs
  split at hs
  · cases hs
  · next hst =>
    refine ⟨hst, ?_⟩
    split at hs
    · next _ l rest hrest =>
      obtain ⟨⟨e, c⟩, hg, rfl⟩ := Option.map_eq_some_iff.1 hs
      exact .inl ⟨l, rest, e, c, hrest, hg, rfl⟩
    · next a back hrest hback =>
      obtain ⟨⟨e, c⟩, hg, rfl⟩ := Option.map_eq_some_iff.1 hs
      exact .inr ⟨a, back, e, c, hrest, hback, hg, rfl⟩
    · cases hs

theorem issued_from (hi : Issued s o s') :
    s.obuflen = 0 ∧ s.state ≠ .retr ∧ (s.state = .init → isLogin o = true) := by
  cases hi with
  | loginEarly u p hst _ hlen | login u p hst _ hlen => exact ⟨hlen, by rw [hst]; decide, fun _ => rfl⟩
  | cd _ hst hlen | type _ hst hlen | size _ hst hlen | getPasv _ hst hlen | getPort _ _ hst hlen =>
      exact ⟨hlen, by rw [hst]; decide, fun hx => absurd (hst.symm.trans hx) (by decide)⟩

theorem flatten_places : w.places.flatten =
    answered w.back ++ (w.serving.map Prod.fst).toList ++ requestsFrom [] w.out ++ unsent w.client := by
  simp [places]

theorem expected_of_not_retr (h : InStep w n) (hst : w.client.state ≠ .retr) (c : FtpClientProto) :
    expected n c = awaited c := by
  rw [expected, if_neg fun hacked => hst (h.acked hacked)]

/-- Another line is queued behind all that is under way. -/
theorem InStep.op (h : InStep w n) (hcivil : Civil w n (.op o)) (hs : w.step (.op o) = some w') : InStep w' n := by
  obtain ⟨⟨e, c⟩, hp, rfl⟩ := Option.map_eq_some_iff.1 hs
  rcases perform_spec h.ready.disciplined o with ⟨e', _, heq⟩ | ⟨c', heq, hi⟩
  · cases heq.symm.trans hp
    exact h
  · cases heq.symm.trans hp
    obtain ⟨hlen, hst, hlogin⟩ := issued_from hi
    have hfresh : w.client.state = .init → w.client.status = 0 := by
      intro hinit
      have h0 := hcivil.2 (hlogin hinit)
      rwa [getStatus, if_neg (by simp [hinit])] at h0
    obtain ⟨line, hline, hmore⟩ := asks_of_issued hi hcivil.1 hfresh
    obtain ⟨hstatus, hmulti⟩ := hi.kept
    have hempty := unsent_of_empty hlen
    have hagree := h.agree
    have haccounts := h.accounts
    simp only [flatten_places, hempty, List.append_nil] at hagree haccounts
    rw [expected_of_not_retr h hst] at hagree
    refine ⟨ready_of_issued hi h.ready hcivil.1 hfresh, ?_, h.clean, h.whole, h.serving, h.marked, ?_, ?_, ?_, ?_⟩
    · rw [hstatus, hmulti]
      exact h.reading
    · rw [flatten_places, expected_of_not_retr h hst, hmore, hline.unsent, ← hagree]
    · rw [flatten_places, hline.unsent, haccounts, List.append_assoc]
    · intro _
      rw [hstatus]
      exact h.status hst
    · exact fun hacked => absurd (h.acked hacked) hst

theorem InStep.portReady (h : InStep w n) (hs : w.step .portReady = some w') : InStep w' n := by
  cases hs
  rcases isPortReady_cases w.client with heq | heq
  · rw [heq]
    exact h
  · rw [heq]
    have hready := h.ready
    exact ⟨hready.of_kept ⟨hready.disciplined.outside, hready.disciplined.inside⟩ rfl rfl (fun hx => ⟨rfl, hx⟩)
      (fun hx => ⟨rfl, hx⟩) hready.early, h.reading, h.clean, h.whole, h.serving, h.marked, h.agree, h.accounts,
      h.status, h.acked⟩

theorem moved_send (hline : Sends w.client line) (hwhole : ∃ ls, (∀ l ∈ ls, LF ∉ l) ∧ w.out = bytes ls)
    (hw : w' = { w with client := w.client.advanceOutput, out := w.out ++ (line ++ [LF]) }) :
    Moved w.places w'.places ∧ ∃ ls, (∀ l ∈ ls, LF ∉ l) ∧ w'.out = bytes ls := by
  obtain ⟨ls, hls, hout⟩ := hwhole
  subst hw
  have hall : ∀ l ∈ ls ++ [line], LF ∉ l := by
    intro l hl
    rcases List.mem_append.1 hl with hl | hl
    · exact hls l hl
    · rw [List.mem_singleton.1 hl]
      exact hline.single
  have hbytes : w.out ++ (line ++ [LF]) = bytes (ls ++ [line]) := by rw [hout, bytes_concat]
  refine ⟨?_, ls ++ [line], hall, hbytes⟩
  have hempty : unsent w.client.advanceOutput = [] := unsent_of_empty rfl
  simp only [places]
  rw [hbytes, requestsFrom_bytes hall, hline.unsent, hempty, hout, requestsFrom_bytes hls, List.map_append]
  exact .there _ (.there _ (.here _ _ _ _))

theorem InStep.send (h : InStep w n) (hs : w.step .send = some w') : InStep w' (note n w .send) := by
  obtain ⟨line, hline, hw⟩ := send_cases h.ready hs
  obtain ⟨hmoved, hwhole⟩ := moved_send hline h.whole hw
  have hflat := hmoved.flatten_eq
  subst hw
  have hready := h.ready
  have hempty : unsent w.client.advanceOutput = [] := unsent_of_empty rfl
  refine ⟨⟨⟨hready.disciplined.outside, hready.disciplined.inside⟩, .inl rfl, hready.password, hready.fname,
    hready.early⟩, h.reading, h.clean, hwhole, h.serving, h.marked, hflat.trans h.agree, ?_, h.status, h.acked⟩
  rw [hflat, hempty, List.append_nil]
  exact h.accounts

theorem moved_take {line : List Byte} {ls : List (List Byte)} (hline : LF ∉ line)
    (hout : w.out = line ++ LF :: bytes ls) (hserving : w.serving = none)
    (hw : w' = { w with serving := some (.ofLine line, k), out := bytes ls }) : Moved w.places w'.places := by
  subst hw
  simp only [places]
  rw [hout, requestsFrom_append hline, hserving]
  exact .there _ (.here _ _ _ _)

theorem InStep.take (h : InStep w n) (hs : w.step (.take k) = some w') : InStep w' n := by
  obtain ⟨line, ls, hline, hls, hout, hserving, hk, hw⟩ := take_cases h.whole hs
  have hflat := (moved_take hline hout hserving hw).flatten_eq
  subst hw
  have hmarked := h.marked
  rw [hserving] at hmarked
  refine ⟨h.ready, h.reading, h.clean, ⟨ls, hls, rfl⟩, ?_, hmarked.taken, hflat.trans h.agree, ?_, h.status, h.acked⟩
  · intro r j hr
    cases hr
    rcases hk with hk | hk
    · exact hk
    · cases hk
  · rw [hflat]
    exact h.accounts

theorem places_mark (hserving : w.serving = some (r, k+1)) (ha : a.mark = true) :
    ({ w with serving := some (r, k), back := w.back ++ [a] } : Dialogue).places = w.places := by
  simp only [places]
  rw [answered_concat, if_pos ha, List.append_nil, hserving]
  rfl

theorem InStep.mark (h : InStep w n) (hs : w.step (.mark a) = some w') : InStep w' n := by
  obtain ⟨r, k, hserving, hrequest, ha, rfl⟩ := mark_cases hs
  have hr := h.serving r k hserving
  subst hr
  have hmarked := h.marked
  have hplaces := places_mark hserving ha
  rw [hserving] at hmarked
  refine ⟨h.ready, h.reading, h.clean, h.whole, ?_, hmarked.mark ha hrequest, ?_, ?_, h.status, h.acked⟩
  · intro r j hr
    cases hr
    rfl
  · rw [hplaces]
    exact h.agree
  · rw [hplaces]
    exact h.accounts

theorem moved_answer (hserving : w.serving = some (r, 0)) (hr : a.request = r) (ha : a.mark = false)
    (hw : w' = { w with serving := none, back := w.back ++ [a] }) : Moved w.places w'.places := by
  subst hw
  simp only [places]
  rw [answered_concat, ha, hserving, hr]
  exact .here _ _ _ _

theorem InStep.answer (h : InStep w n) (hs : w.step (.answer a) = some w') : InStep w' n := by
  obtain ⟨r, hserving, hr, ha, hw⟩ := answer_cases hs
  have hflat := (moved_answer hserving hr ha hw).flatten_eq
  subst hw
  have hmarked := h.marked
  rw [hserving] at hmarked
  refine ⟨h.ready, h.reading, h.clean, h.whole, nofun, hmarked.answer ha hr, hflat.trans h.agree, ?_, h.status, h.acked⟩
  rw [hflat]
  exact h.accounts

/-- Another line of the reply that the client is in the middle of. -/
theorem InStep.receive_rest {rest : List Line} (h : InStep w n) (hrest : w.rest = l :: rest)
    (hg : w.client.giveInput l = some (e, s')) : e = 0 ∧ InStep { w with client := s', rest := rest } n := by
  have hready := h.ready
  rcases h.reading with ⟨hm, hclosed⟩ | ⟨_, hnone⟩
  · rw [hrest] at hclosed
    rcases giveInput_cases hready.disciplined hg with ⟨_, he, rfl⟩ | ⟨hm', _⟩
    · refine ⟨he, hready.of_kept ⟨hready.disciplined.outside, hready.disciplined.inside⟩ rfl rfl (fun hx => ⟨rfl, hx⟩)
        (fun hx => ⟨rfl, hx⟩) hready.early, ?_, ?_, h.whole, h.serving, h.marked, h.agree, h.accounts, h.status, h.acked⟩
      · change (!closes w.client.status l) = true ∧ Closed w.client.status rest ∨
          (!closes w.client.status l) = false ∧ rest = []
        rcases reading_next hclosed with ⟨hc, hnil⟩ | ⟨hc, hc'⟩
        · exact .inr ⟨by rw [hc]; rfl, hnil⟩
        · exact .inl ⟨by rw [hc]; rfl, hc'⟩
      · exact fun l' hl' => h.clean l' (by rw [hrest]; exact .tail _ hl')
    · cases hm.symm.trans hm'
  · rw [hrest] at hnone
    cases hnone

theorem InStep.multiline_eq_false (h : InStep w n) (hrest : w.rest = []) : w.client.multiline = false := by
  rcases h.reading with ⟨_, hclosed⟩ | ⟨hm, _⟩
  · rw [hrest] at hclosed
    exact hclosed.elim
  · exact hm

/-- Behind the first line of a reply, `rest` is the rest of it. -/
theorem reading_first (hmulti : s'.multiline = (s.saveStatus a.first).multiline) (hm : s.multiline = false)
    (hstatus : s'.status = atoi a.first.text) :
    s'.multiline = true ∧ Closed s'.status a.rest ∨ s'.multiline = false ∧ a.rest = [] := by
  have hframed := a.framed
  rw [hmulti, hstatus, saveStatus, hm, Bool.false_or]
  split at hframed
  · next hminus => exact .inl ⟨by simpa using hminus, hframed⟩
  · next hminus => exact .inr ⟨by simpa using hminus, hframed⟩

theorem note_mark (hrest : w.rest = []) (hback : w.back = a :: back) (ha : a.mark = true) : note n w .receive = n := by
  simp [note, hrest, hback, ha]

theorem note_final (hrest : w.rest = []) (hback : w.back = a :: back) (ha : a.mark = false) :
    note n w .receive = { n with answers := n.answers ++ [(a.request, atoi a.first.text)] } := by
  simp [note, hrest, hback, ha]

theorem acked_concat {c : ℤ} : Heard.acked { n with answers := n.answers ++ [(r, c)] } =
    (n.acked || (r == .port && is2xx c)) := by
  simp [Heard.acked]

theorem not_acked_concat {c : ℤ} (h : n.acked = false) (hport : r = .port → is2xx c = false) :
    Heard.acked { n with answers := n.answers ++ [(r, c)] } = false := by
  rw [acked_concat, h, Bool.false_or]
  by_cases hr : r = .port
  · simp [hport hr]
  · simp [hr]

/-- The reply that announces the end of a transfer comes while that end is awaited. -/
theorem InStep.state_of_mark (h : InStep w n) (hback : w.back = a :: back) (ha : a.mark = true) :
    a.request = .retr ∧ w.client.state = .retr ∧ n.acked = false := by
  have hmarked := h.marked
  rw [hback] at hmarked
  obtain ⟨hretr, hhead⟩ := hmarked.1 ha
  have hflat : w.places.flatten.head? = some .retr := by
    rw [flatten_places, hback, answered_mark ha, List.append_assoc, List.head?_append,
      hhead]
    rfl
  rw [h.agree, expected] at hflat
  split at hflat
  · cases hflat
  · next hacked => exact ⟨hretr, state_of_retr hflat, by simpa using hacked⟩

/-- A reply that announces another one changes nothing but the status. -/
theorem reply_of_mark {t : FtpClientProto} {status : ℤ} (hr : Reply t l status e s') (hst : t.state = .retr)
    (h1 : is1xx status = true) : e = 0 ∧ s' = t := by
  cases hr with
  | retrMark => exact ⟨rfl, rfl⟩
  | retrDone _ h1' => cases h1.symm.trans h1'
  | helloUser hst' | hello hst' | refused hst' | askPass hst' | portOk hst' | pasvOk _ hst' =>
      cases hst.symm.trans hst'
  | loggedIn hst' | loginFailed hst' | done hst' | abandoned hst' | unexpected hst' => simp [hst] at hst'

theorem places_read {rest : List Line} (hback : w.back = a :: back) (ha : a.mark = true)
    (hout : s.getOutput = w.client.getOutput) :
    places { w with client := s, rest := rest, back := back } = w.places := by
  simp only [places]
  rw [hback, answered_mark ha, unsent_congr hout]

/-- The first line of a reply is taken by the state. -/
theorem InStep.reply (h : InStep w n) (hrest : w.rest = []) (hg : w.client.giveInput l = some (e, s')) :
    Reply (w.client.saveStatus l) l (atoi l.text) e s' := by
  rcases giveInput_cases h.ready.disciplined hg with ⟨hm, -⟩ | ⟨-, hr⟩
  · cases (h.multiline_eq_false hrest).symm.trans hm
  · exact hr

theorem InStep.receive_mark (h : InStep w n) (hrest : w.rest = []) (hback : w.back = a :: back) (ha : a.mark = true)
    (hg : w.client.giveInput a.first = some (e, s')) : s' = w.client.saveStatus a.first ∧
    InStep { w with client := s', rest := a.rest, back := back } n := by
  have hr := h.reply hrest hg
  obtain ⟨-, hst, hacked⟩ := h.state_of_mark hback ha
  have hplaces : places { w with client := w.client.saveStatus a.first, rest := a.rest, back := back } = w.places :=
    places_read hback ha rfl
  have hstatus := hr.kept.1
  have hfirst := reading_first hr.kept.2 (h.multiline_eq_false hrest) hstatus
  have hready' := ready_of_reply hr h.ready
  have hmarked := h.marked
  rw [hback] at hmarked
  obtain ⟨rfl, rfl⟩ := reply_of_mark hr hst ha
  refine ⟨rfl, hready', hfirst, fun l hl => a.lf_free l (.tail _ hl), h.whole, h.serving, hmarked.2, ?_, ?_, ?_, ?_⟩
  · have hst' : (w.client.saveStatus a.first).state = .retr := hst
    rw [hplaces, h.agree, expected, expected, hacked, awaited, awaited, hst, hst']
  · rw [hplaces]
    exact h.accounts
  · exact fun hno => absurd hst hno
  · exact fun _ => hst

/-- The final reply of a request comes while it is the oldest one awaited. -/
theorem InStep.oldest (h : InStep w n) (hback : w.back = a :: back) (ha : a.mark = false) :
    n.acked = false ∧ awaited w.client = a.request ::
      (answered back ++ (w.serving.map Prod.fst).toList ++ requestsFrom [] w.out ++ unsent w.client) := by
  have hagree := h.agree
  rw [flatten_places, hback, answered_final ha, expected] at hagree
  split at hagree
  · simp at hagree
  · next hacked => exact ⟨by simpa using hacked, by simpa using hagree.symm⟩

/-- What is left to show after a final reply. -/
theorem InStep.read (h : InStep w n) (hrest : w.rest = []) (hback : w.back = a :: back)
    (hr : Reply (w.client.saveStatus a.first) a.first (atoi a.first.text) e s')
    (hagree : answered back ++ (w.serving.map Prod.fst).toList ++ requestsFrom [] w.out ++ unsent s' =
      expected { n with answers := n.answers ++ [(a.request, atoi a.first.text)] } s')
    (haccounts : n.asked ++ unsent s' = n.answers.map Prod.fst ++ a.request ::
      (answered back ++ (w.serving.map Prod.fst).toList ++ requestsFrom [] w.out ++ unsent s'))
    (hacked : n.acked = true ∨ a.request = .port ∧ is2xx (atoi a.first.text) = true → s'.state = .retr) :
    InStep { w with client := s', rest := a.rest, back := back }
      { n with answers := n.answers ++ [(a.request, atoi a.first.text)] } := by
  have hm := h.multiline_eq_false hrest
  have hstatus := hr.kept.1
  have hmarked := h.marked
  rw [hback] at hmarked
  refine ⟨ready_of_reply hr h.ready, reading_first hr.kept.2 hm hstatus, fun l hl => a.lf_free l (.tail _ hl), h.whole,
    h.serving, hmarked.2, ?_, ?_, ?_, ?_⟩
  · rw [flatten_places]
    exact hagree
  · rw [flatten_places, List.map_append]
    simpa using haccounts
  · intro _
    rw [hstatus, Heard.lastCode]
    simp [saveStatus]
  · intro hx
    rw [acked_concat] at hx
    exact hacked (by simpa using hx)

theorem InStep.receive_final (h : InStep w n) (hrest : w.rest = []) (hback : w.back = a :: back) (ha : a.mark = false)
    (hg : w.client.giveInput a.first = some (e, s')) :
    Orderly { w with client := s', rest := a.rest, back := back }
      { n with answers := n.answers ++ [(a.request, atoi a.first.text)] } := by
  obtain ⟨hacked, hq⟩ := h.oldest hback ha
  have haccounts := h.accounts
  rw [flatten_places, hback, answered_final ha] at haccounts
  have hcode : atoi a.first.text ≠ 0 := by
    have hcoded := a.coded
    omega
  have hr := h.reply hrest hg
  rcases taken_of_reply hr h.ready hcode ha hq with ⟨hhello, hun⟩ | ⟨hport, h2, hst, hout⟩ | ⟨hport, _, haw, hout⟩ |
    ⟨line, hport, hline, hothers, haw⟩
  · exact .inl ⟨hun, not_acked_concat hacked fun hport => absurd (hhello.symm.trans hport) (by decide)⟩
  · refine .inr (h.read hrest hback hr ?_ ?_ fun _ => hst)
    · have hnone := others_eq_nil hq (by rw [hport]; decide)
      rw [unsent_congr hout, hnone, expected, if_pos]
      simp [acked_concat, hport, h2]
    · rw [unsent_congr hout]
      exact haccounts
  · have hno := not_acked_concat hacked hport
    refine .inr (h.read hrest hback hr ?_ ?_ fun hx => ?_)
    · rw [unsent_congr hout, expected, hno, haw]
      rfl
    · rw [unsent_congr hout]
      exact haccounts
    · rcases hx with hx | ⟨hp, h2⟩
      · cases hacked.symm.trans hx
      · cases (hport hp).symm.trans h2
  · have hno := not_acked_concat (r := a.request) (c := atoi a.first.text) hacked fun hp => absurd hp hport
    -- nothing else is under way, so the line of the client is the only one
    simp only [List.append_eq_nil_iff] at hothers
    obtain ⟨⟨⟨hanswered, hserving⟩, hout⟩, hunsent⟩ := hothers
    rw [hanswered, hserving, hout, hunsent] at haccounts
    refine .inr (h.read hrest hback hr ?_ ?_ fun hx => ?_)
    · rw [hanswered, hserving, hout, hline.unsent, expected, hno, haw]
      rfl
    · have hasked : n.asked = n.answers.map Prod.fst ++ [a.request] := by simpa using haccounts
      rw [hanswered, hserving, hout, hline.unsent, hasked]
      simp
    · rcases hx with hx | ⟨hp, _⟩
      · cases hacked.symm.trans hx
      · exact absurd hp hport

theorem InStep.receive (h : InStep w n) (hs : w.step .receive = some w') : Orderly w' (note n w .receive) := by
  obtain ⟨-, ⟨l, rest, e, c, hrest, hg, rfl⟩ | ⟨a, back, e, c, hrest, hback, hg, rfl⟩⟩ := receive_cases hs
  · have hnote : note n w .receive = n := by simp [note, hrest]
    rw [hnote]
    exact .inr (h.receive_rest hrest hg).2
  · cases ha : a.mark with
    | true =>
        rw [note_mark hrest hback ha]
        exact .inr (h.receive_mark hrest hback ha hg).2
    | false =>
        rw [note_final hrest hback ha]
        exact h.receive_final hrest hback ha hg

/-- To the client a step is one of its own calls, or nothing. -/
theorem client_step {m : Act} (hs : w.step m = some w') :
    w'.client = w.client ∨ ∃ c, w.client.step c = some w'.client := by
  cases m with
  | op o =>
      obtain ⟨r, hp, rfl⟩ := Option.map_eq_some_iff.1 hs
      exact .inr ⟨.op o, by rw [FtpClientProto.step, hp]; rfl⟩
  | portReady =>
      cases hs
      exact .inr ⟨.isPortReady, rfl⟩
  | send =>
      obtain ⟨r, -, rfl⟩ := Option.map_eq_some_iff.1 hs
      exact .inr ⟨.advanceOutput, rfl⟩
  | take m =>
      simp only [step] at hs
      split at hs
      · split at hs <;> cases hs
        exact .inl rfl
      · cases hs
  | mark a =>
      obtain ⟨r, k, -, -, -, rfl⟩ := mark_cases hs
      exact .inl rfl
  | answer a =>
      obtain ⟨r, -, -, -, rfl⟩ := answer_cases hs
      exact .inl rfl
  | receive =>
      obtain ⟨-, ⟨l, rest, e, c, -, hg, rfl⟩ | ⟨a, back, e, c, -, -, hg, rfl⟩⟩ := receive_cases hs
      · exact .inr ⟨.giveInput l, by rw [FtpClientProto.step, hg]; rfl⟩
      · exact .inr ⟨.giveInput a.first, by rw [FtpClientProto.step, hg]; rfl⟩

theorem disciplined_step {m : Act} (hd : w.client.Disciplined) (hs : w.step m = some w') : w'.client.Disciplined := by
  rcases client_step hs with heq | ⟨c, hc⟩
  · rw [heq]
    exact hd
  · exact step_disciplined hd hc

theorem call_uninit {c : Call} (h : s.state = .uninit) (hd : s.Disciplined) (hs : s.step c = some s') :
    s'.state = .uninit := by
  cases c with
  | op o =>
      rcases step_op_cases hd hs with ⟨-, rfl⟩ | ⟨-, hi⟩
      · exact h
      · cases hi <;> simp_all
  | advanceOutput =>
      cases hs
      exact h
  | isPortReady =>
      cases hs
      rcases isPortReady_cases s with heq | heq <;> rw [heq] <;> exact h
  | giveInput l =>
      obtain ⟨⟨e, t⟩, hg, rfl⟩ := Option.map_eq_some_iff.1 hs
      rcases giveInput_cases hd hg with ⟨-, -, rfl⟩ | ⟨-, hr⟩
      · exact h
      · have hst : (s.saveStatus l).state = .uninit := h
        cases hr <;> simp_all

/-- No call leads to the state of a quit. -/
theorem call_ne_quit {c : Call} (h : s.state ≠ .quit) (hd : s.Disciplined) (hs : s.step c = some s') :
    s'.state ≠ .quit := by
  cases c with
  | op o =>
      rcases step_op_cases hd hs with ⟨-, rfl⟩ | ⟨-, hi⟩
      · exact h
      · cases hi <;> simp_all [setState, pushState, queueUser, putLine]
  | advanceOutput =>
      cases hs
      exact h
  | isPortReady =>
      cases hs
      rcases isPortReady_cases s with heq | heq <;> rw [heq] <;> exact h
  | giveInput l =>
      obtain ⟨⟨e, t⟩, hg, rfl⟩ := Option.map_eq_some_iff.1 hs
      rcases giveInput_cases hd hg with ⟨-, -, rfl⟩ | ⟨-, hr⟩
      · exact h
      · have hst : (s.saveStatus l).state ≠ .quit := h
        cases hr <;> simp_all [setState, popped, putLine]

/-- A client that has hung up stays so. -/
theorem uninit_step {m : Act} (h : w.client.state = .uninit) (hd : w.client.Disciplined) (hs : w.step m = some w') :
    w'.client.state = .uninit := by
  rcases client_step hs with heq | ⟨c, hc⟩
  · rw [heq, h]
  · exact call_uninit h hd hc

theorem InStep.next {k : Act} (h : InStep w n) (hcivil : Civil w n k) (hs : w.step k = some w') :
    Orderly w' (note n w k) := by
  cases k with
  | op o => exact .inr (h.op hcivil hs)
  | portReady => exact .inr (h.portReady hs)
  | send => exact .inr (h.send hs)
  | take m => exact .inr (h.take hs)
  | mark a => exact .inr (h.mark hs)
  | answer a => exact .inr (h.answer hs)
  | receive => exact h.receive hs

theorem inStep_start (s : FtpClientProto) : InStep (start s) ⟨[.hello], []⟩ where
  ready := ⟨init_disciplined s, .inl rfl, by simp [start, init], by simp [start, init], by simp [start, init]⟩
  reading := .inr ⟨rfl, rfl⟩
  clean := by simp [start]
  whole := ⟨[], by simp, rfl⟩
  serving := by simp [start]
  marked := trivial
  agree := rfl
  accounts := rfl
  status _ := rfl
  acked h := by cases h

/-- A client that has hung up reads no replies. -/
theorem answers_note {m : Act} (h : w.client.state = .uninit) (hs : w.step m = some w') :
    (note n w m).answers = n.answers := by
  cases m with
  | receive => exact absurd h (receive_cases hs).1
  | op | portReady | send | take | mark | answer => rfl

/-- What holds throughout, of the client alone and of both parties. -/
structure Sound (w : Dialogue) (n : Heard) : Prop where
  disciplined : w.client.Disciplined
  not_quit : w.client.state ≠ .quit
  orderly : Orderly w n

theorem Sound.next {m : Act} (h : Sound w n) (hcivil : Civil w n m) (hs : w.step m = some w') :
    Sound w' (note n w m) := by
  refine ⟨disciplined_step h.disciplined hs, ?_, ?_⟩
  · rcases client_step hs with heq | ⟨c, hc⟩
    · rw [heq]
      exact h.not_quit
    · exact call_ne_quit h.not_quit h.disciplined hc
  · rcases h.orderly with ⟨hun, hacked⟩ | hin
    · refine .inl ⟨uninit_step hun h.disciplined hs, ?_⟩
      have hsame : Heard.acked (note n w m) = n.acked := by rw [Heard.acked, answers_note hun hs, ← Heard.acked]
      exact hsame.trans hacked
    · exact hin.next hcivil hs

theorem sound_of_run (h : Run dialogues Civil w n) : Sound w n := by
  refine h.invariant (I := Sound) ?_ ?_
  · intro w n hx
    obtain ⟨⟨s, rfl⟩, rfl⟩ := hx
    exact ⟨init_disciplined s, by simp [start, init], .inr (inStep_start s)⟩
  · exact fun w n m w' hsound hcivil hs => hsound.next hcivil hs

theorem InStep.reports (h : InStep w n) (h0 : w.client.getStatus ≠ 0) :
    expected n w.client = [] ∧ n.answers.getLast?.map Prod.snd = some w.client.getStatus := by
  obtain ⟨hst, heq⟩ := getStatus_ne_zero h0
  have hretr : w.client.state ≠ .retr := by
    rcases hst with hst | hst <;> rw [hst] <;> decide
  have hlast := h.status hretr
  rw [heq] at h0
  constructor
  · rw [expected_of_not_retr h hretr]
    rcases hst with hst | hst
    · rw [awaited, hst]
    · simp only [awaited, hst, h0, if_false]
  · rw [heq, hlast]
    rw [hlast, Heard.lastCode] at h0
    rw [Heard.lastCode]
    cases hl : n.answers.getLast?.map Prod.snd with
    | none => exact absurd (by rw [hl]; rfl) h0
    | some c => rfl

end

def userLogin : Op := .login ⟨ascii "u", no_nul_u⟩ ⟨ascii "p", no_nul_p⟩

def greeting : Answer := .line .hello (.ofAscii "220 at your service" (by decide)) (by decide) (by decide) (by decide)

end Dkftpbench.Dialogue
