import Dkftpbench.ReplyFraming
import Dkftpbench.Watch

/-!
# What a status of 2xx is worth

An observer follows a run of the protocol and notes what became of a `get` in passive
mode. Lines are taken when they go through the switch in `giveInput`, that is, outside
a multi-line reply.
-/
namespace Dkftpbench.FtpClientProto
open CLib Watch

/-- What holds after `init` and is kept by each call holds throughout. -/
theorem run_keeps {γ : Type*} {S : System FtpClientProto Call γ} {ok : FtpClientProto → γ → Call → Prop}
    {I : FtpClientProto → γ → Prop} {s : FtpClientProto} {n : γ} (hS : S.step = fun s c s' => s.step c = some s')
    (hstart : ∀ s n, S.start s n → (∃ s₀, s = init s₀) ∧ I s n)
    (hop : ∀ s n o s', s.Disciplined → I s n → ok s n (.op o) → s.step (.op o) = some s' →
      I s' (S.note n s (.op o) s'))
    (hadvance : ∀ s n, I s n → I s.advanceOutput (S.note n s .advanceOutput s.advanceOutput))
    (hready : ∀ s n, I s n → I s.isPortReady.2 (S.note n s .isPortReady s.isPortReady.2))
    (hgive : ∀ s n ibuf e s', s.Disciplined → I s n → ok s n (.giveInput ibuf) →
      s.giveInput ibuf = some (e, s') → I s' (S.note n s (.giveInput ibuf) s'))
    (h : Run S ok s n) : s.Disciplined ∧ I s n := by
  refine h.invariant (I := fun s n => s.Disciplined ∧ I s n) ?_ ?_
  · intro s n hx
    obtain ⟨⟨s₀, rfl⟩, hn⟩ := hstart s n hx
    exact ⟨init_disciplined s₀, hn⟩
  · rintro s n c s' ⟨hd, hn⟩ hok hs
    rw [hS] at hs
    refine ⟨step_disciplined hd hs, ?_⟩
    cases c with
    | op o => exact hop s n o s' hd hn hok hs
    | advanceOutput =>
        cases hs
        exact hadvance s n hn
    | isPortReady =>
        cases hs
        exact hready s n hn
    | giveInput ibuf =>
        obtain ⟨⟨e, t⟩, hg, rfl⟩ := Option.map_eq_some_iff.1 hs
        exact hgive s n ibuf e t hd hn hok hg

theorem isPortReady_cases (s : FtpClientProto) :
    s.isPortReady.2 = s ∨ s.isPortReady.2 = { s with addressReady := false } := by
  unfold isPortReady
  split
  · exact .inl rfl
  · exact .inr rfl

/-- The line answers the operation, by the command that the state awaits a reply to. -/
def isFinal (s : FtpClientProto) (ibuf : Line) : Bool :=
  let status := atoi ibuf.text
  match s.state with
  | .user => !is3xx status
  | .pass | .cwd | .type | .size => true
  | .port => !is2xx status
  | .pasv => !(is2xx status && (parsePasv ibuf).isSome)
  | .retr => !is1xx status
  | _ => false

def accepts (s : FtpClientProto) (o : Op) : Bool := (s.perform o).map Prod.fst == some 0

/-- What came of the `get` in passive mode that was the last operation accepted: the
address in the reply to PASV, whether the line RETR was seen at the output, and the
numbers of the 2xx replies taken in state RETR. -/
structure GetNotes where
  fname : CStr
  parsed : Option SockaddrIn
  retrSeen : Bool
  codes : List ℤ

def retrLine (fname : List Byte) : List Byte := ascii "RETR " ++ fname ++ crlf

def GetNotes.takeReply (n : GetNotes) (s : FtpClientProto) (ibuf : Line) (s' : FtpClientProto) :
    GetNotes :=
  let status := atoi ibuf.text
  { n with
    parsed := if s.state = .pasv ∧ is2xx status then parsePasv ibuf else n.parsed
    retrSeen := n.retrSeen ||
      s'.getOutput == some (retrLine n.fname, (retrLine n.fname).length)
    codes := if s.state = .retr ∧ is2xx status then status :: n.codes else n.codes }

def noteGet (g : Option GetNotes) (s : FtpClientProto) : Call → FtpClientProto → Option GetNotes
  | .op (.get fname none), _ => if s.accepts (.get fname none) then some ⟨fname, none, false, []⟩ else g
  | .op o, _ => if s.accepts o then none else g
  | .giveInput ibuf, s' => if s.multiline then g else g.map (·.takeReply s ibuf s')
  | _, _ => g

/-- Runs from `init`, with what came of the last `get`. -/
def gets : System FtpClientProto Call (Option GetNotes) where
  start s g := (∃ s₀, s = init s₀) ∧ g = none
  step s c s' := s.step c = some s'
  note := noteGet

/-- The `get` was told an address and asked for its file. -/
structure Requested (s : FtpClientProto) (n : GetNotes) : Prop where
  parsed : n.parsed = some s.address
  retrSeen : n.retrSeen = true

/-- A status of 2xx comes from the server's reply to the RETR of this `get`. -/
structure EarnedStatus (s : FtpClientProto) (n : GetNotes) : Prop where
  requested : Requested s n
  taken : s.getStatus ∈ n.codes

/-- A 2xx reply to PASV has an address, and a 2xx line that comes after the end of the
`get` repeats the number of its status. -/
def Addressed (s : FtpClientProto) (g : Option GetNotes) : Call → Prop
  | .giveInput ibuf => g.isSome → s.multiline = false → is2xx (atoi ibuf.text) →
      (s.state = .pasv → (parsePasv ibuf).isSome) ∧ (s.state = .idle → atoi ibuf.text = s.status)
  | _ => True

/-- What carries `EarnedStatus` from step to step. -/
def Fetching (s : FtpClientProto) (n : GetNotes) : Prop :=
  s.state = .pasv ∧ s.fname = n.fname.1 ∨
  s.state = .retr ∧ Requested s n ∨
  s.state = .idle ∧ (is2xx s.status → Requested s n ∧ s.status ∈ n.codes)

section
variable {s s' : FtpClientProto} {ibuf : Line} {o : Op} {e : ℤ}

theorem accepts_iff : s.accepts o = true ↔ ∃ s', s.perform o = some (0, s') := by
  unfold accepts
  rw [beq_iff_eq, Option.map_eq_some_iff]
  constructor
  · intro ⟨⟨e, s'⟩, heq, he⟩
    exact ⟨s', by rw [heq]; exact congrArg (fun e => some (e, s')) he⟩
  · intro ⟨s', heq⟩
    exact ⟨_, heq, rfl⟩

/-- An operation is refused and changes nothing, or it is accepted. -/
theorem step_op_cases (hd : s.Disciplined) (hs : s.step (.op o) = some s') :
    s.accepts o = false ∧ s' = s ∨ s.accepts o = true ∧ Issued s o s' := by
  rcases perform_spec hd o with ⟨e, he, heq⟩ | ⟨t, heq, hi⟩
  · rw [step, heq] at hs
    cases hs
    refine .inl ⟨?_, rfl⟩
    rw [accepts, heq]
    simpa using he
  · rw [step, heq] at hs
    cases hs
    exact .inr ⟨accepts_iff.2 ⟨t, heq⟩, hi⟩

/-- The final replies are those after which nothing is awaited. -/
theorem Reply.settles (hr : Reply s ibuf (atoi ibuf.text) e s') :
    s.isFinal ibuf = true ∧ (s'.state = .idle ∨ s'.state = .init) ∨
    s.isFinal ibuf = false ∧ (s.state = .idle ∧ s' = s ∨ s'.state ≠ .idle ∧ s'.state ≠ .init) := by
  unfold isFinal
  cases hr with
  | helloUser hst | hello hst | refused hst =>
      rw [hst]
      exact .inr ⟨rfl, .inr ⟨nofun, nofun⟩⟩
  | askPass hst h3 =>
      simp only [hst, h3, Bool.not_true]
      exact .inr ⟨trivial, .inr ⟨nofun, nofun⟩⟩
  | loggedIn hst h2 =>
      have h3 : is3xx (atoi ibuf.text) = false := by
        simp only [is2xx, is3xx, Bool.and_eq_true, Bool.and_eq_false_iff, decide_eq_true_eq,
          decide_eq_false_iff_not] at *
        omega
      rcases hst with hst | hst <;> simp only [hst, h3, Bool.not_false]
      · exact .inl ⟨trivial, .inl rfl⟩
      · exact .inl ⟨trivial, .inl rfl⟩
  | loginFailed hst h2 =>
      rcases hst with ⟨hst, h3⟩ | hst
      · simp only [hst, h3, Bool.not_false]
        exact .inl ⟨trivial, .inr rfl⟩
      · simp only [hst]
        exact .inl ⟨trivial, .inr rfl⟩
  | done hst =>
      rcases hst with hst | hst | hst <;> simp only [hst]
      all_goals exact .inl ⟨trivial, .inl rfl⟩
  | portOk hst h2 =>
      simp only [hst, h2, Bool.not_true]
      exact .inr ⟨trivial, .inr ⟨nofun, nofun⟩⟩
  | pasvOk address hst h2 hp =>
      simp only [hst, h2, hp, Option.isSome_some, Bool.and_true, Bool.not_true]
      exact .inr ⟨trivial, .inr ⟨nofun, nofun⟩⟩
  | abandoned hst =>
      rcases hst with ⟨hst, h2⟩ | ⟨hst, h2 | hp⟩
      · simp only [hst, h2, Bool.not_false]
        exact .inl ⟨trivial, .inl rfl⟩
      · simp only [hst, h2, Bool.false_and, Bool.not_false]
        exact .inl ⟨trivial, .inl rfl⟩
      · simp only [hst, hp, Option.isSome_none, Bool.and_false, Bool.not_false]
        exact .inl ⟨trivial, .inl rfl⟩
  | retrMark hst h1 =>
      simp only [hst, h1, Bool.not_true]
      exact .inr ⟨trivial, .inr ⟨by simp, by simp⟩⟩
  | retrDone hst h1 =>
      simp only [hst, h1, Bool.not_false]
      exact .inl ⟨trivial, .inl rfl⟩
  | unexpected hst =>
      rcases hst with hst | hst | hst | hst <;> simp only [hst]
      · exact .inr ⟨trivial, .inr ⟨by simp, by simp⟩⟩
      · exact .inr ⟨trivial, .inr ⟨by simp, by simp⟩⟩
      · exact .inr ⟨trivial, .inl ⟨by simp, by simp⟩⟩
      · exact .inr ⟨trivial, .inr ⟨by simp, by simp⟩⟩

theorem Reply.of_idle {status : ℤ} (hidle : s.state = .idle) (hr : Reply s ibuf status e s') :
    s' = s := by
  cases hr <;> simp_all

theorem Fetching.earned {n : GetNotes} (h : Fetching s n) (h2 : is2xx s.getStatus = true) :
    EarnedStatus s n := by
  unfold getStatus at h2
  split at h2
  · cases h2
  · next hst =>
    rcases h with ⟨hpasv, _⟩ | ⟨hretr, _⟩ | ⟨hidle, h⟩
    · exact absurd ⟨by simp [hpasv], by simp [hpasv]⟩ hst
    · exact absurd ⟨by simp [hretr], by simp [hretr]⟩ hst
    · obtain ⟨hreq, hmem⟩ := h h2
      exact ⟨hreq, by rwa [getStatus, if_neg hst]⟩

theorem Fetching.of_eq {n : GetNotes} (h : Fetching s n) (hstate : s'.state = s.state)
    (hstatus : s'.status = s.status) (hfname : s'.fname = s.fname) (haddress : s'.address = s.address) :
    Fetching s' n := by
  have hreq : Requested s n → Requested s' n := fun ⟨h1, h2⟩ => ⟨haddress ▸ h1, h2⟩
  rcases h with ⟨hst, hf⟩ | ⟨hst, hr⟩ | ⟨hst, hr⟩
  · exact .inl ⟨hstate.trans hst, hfname.trans hf⟩
  · exact .inr (.inl ⟨hstate.trans hst, hreq hr⟩)
  · refine .inr (.inr ⟨hstate.trans hst, ?_⟩)
    rw [hstatus]
    exact fun h2 => ⟨hreq (hr h2).1, (hr h2).2⟩

theorem Requested.takeReply {n : GetNotes} (h : Requested s n) (hst : s.state ≠ .pasv)
    (haddress : s'.address = s.address) : Requested s' (n.takeReply s ibuf s') := by
  constructor
  · rw [haddress, ← h.parsed]
    exact if_neg fun hp => hst hp.1
  · simp [GetNotes.takeReply, h.retrSeen]

theorem Fetching.reply_pasv {n : GetNotes} (hst : s.state = .pasv) (hf : s.fname = n.fname.1)
    (hok : is2xx (atoi ibuf.text) → (parsePasv ibuf).isSome)
    (hr : Reply (s.saveStatus ibuf) ibuf (atoi ibuf.text) e s') :
    Fetching s' (n.takeReply s ibuf s') := by
  have hsave : (s.saveStatus ibuf).state = .pasv := hst
  cases hr with
  | pasvOk address _ h2 hp =>
      refine .inr (.inl ⟨rfl, ?_, ?_⟩)
      · exact (if_pos ⟨hst, h2⟩).trans hp
      · have hout : getOutput ((((s.saveStatus ibuf).setAddress address).popped .retr).putLine
            (retrLine s.fname)) = some (retrLine n.fname, (retrLine n.fname).length) := by
          rw [hf]
          simp [getOutput, isOutputReady, putLine, retrLine, crlf]
        simp only [GetNotes.takeReply, Bool.or_eq_true, beq_iff_eq]
        exact .inr hout
  | abandoned hcase =>
      refine .inr (.inr ⟨rfl, fun h2 => ?_⟩)
      have h2' : is2xx (atoi ibuf.text) = true := h2
      rcases hcase with ⟨hport, _⟩ | ⟨_, hno | hp⟩
      · cases hsave.symm.trans hport
      · cases h2'.symm.trans hno
      · have := hok h2'
        rw [hp] at this
        cases this
  | helloUser hne | hello hne | refused hne | askPass hne | portOk hne | retrMark hne
  | retrDone hne => cases hsave.symm.trans hne
  | loggedIn hne | done hne | unexpected hne => simp [hsave] at hne
  | loginFailed hne => simp [hsave] at hne

theorem Fetching.reply_retr {n : GetNotes} (hst : s.state = .retr) (hreq : Requested s n)
    (hr : Reply (s.saveStatus ibuf) ibuf (atoi ibuf.text) e s') :
    Fetching s' (n.takeReply s ibuf s') := by
  have hsave : (s.saveStatus ibuf).state = .retr := hst
  have hne : s.state ≠ .pasv := by simp [hst]
  cases hr with
  | retrMark => exact .inr (.inl ⟨hst, hreq.takeReply hne rfl⟩)
  | retrDone =>
      refine .inr (.inr ⟨rfl, fun h2 => ⟨hreq.takeReply hne rfl, ?_⟩⟩)
      have h2' : is2xx (atoi ibuf.text) = true := h2
      simp only [GetNotes.takeReply, hst, h2', and_self, if_true]
      exact List.mem_cons_self
  | helloUser hno | hello hno | refused hno | askPass hno | portOk hno | pasvOk _ hno =>
      cases hsave.symm.trans hno
  | loggedIn hno | done hno | unexpected hno => simp [hsave] at hno
  | loginFailed hno | abandoned hno => simp [hsave] at hno

theorem Fetching.reply {n : GetNotes} (h : Fetching s n) (hok : Addressed s (some n) (.giveInput ibuf))
    (hm : s.multiline = false) (hr : Reply (s.saveStatus ibuf) ibuf (atoi ibuf.text) e s') :
    Fetching s' (n.takeReply s ibuf s') := by
  have hok' := hok rfl hm
  rcases h with ⟨hst, hf⟩ | ⟨hst, hreq⟩ | ⟨hst, hdone⟩
  · exact .reply_pasv hst hf (fun h2 => (hok' h2).1 hst) hr
  · exact .reply_retr hst hreq hr
  · have hsame := Reply.of_idle (s := s.saveStatus ibuf) hst hr
    subst hsame
    refine .inr (.inr ⟨hst, fun h2 => ?_⟩)
    have heq : atoi ibuf.text = s.status := (hok' h2).2 hst
    obtain ⟨hreq, hmem⟩ := hdone (heq ▸ h2)
    refine ⟨hreq.takeReply (by simp [hst]) rfl, ?_⟩
    simp only [GetNotes.takeReply, hst, reduceCtorEq, false_and, if_false]
    exact (show (s.saveStatus ibuf).status = s.status from heq) ▸ hmem

theorem noteGet_op_refused {g : Option GetNotes} (h : s.accepts o = false) :
    noteGet g s (.op o) s' = g := by
  unfold noteGet
  split <;> simp_all

theorem fetching_op {g : Option GetNotes} {n : GetNotes} (hd : s.Disciplined)
    (hg : ∀ n, g = some n → Fetching s n) (hs : s.step (.op o) = some s')
    (hn : noteGet g s (.op o) s' = some n) : Fetching s' n := by
  rcases step_op_cases hd hs with ⟨hno, rfl⟩ | ⟨hyes, hi⟩
  · rw [noteGet_op_refused hno] at hn
    exact hg n hn
  · cases hi with
    | getPasv f =>
        simp only [noteGet, hyes, if_true, Option.some.injEq] at hn
        subst hn
        exact .inl ⟨rfl, rfl⟩
    | loginEarly | login | cd | type | size | getPort =>
        simp only [noteGet, hyes, if_true, reduceCtorEq] at hn

theorem fetching_giveInput {g : Option GetNotes} {n : GetNotes} (hd : s.Disciplined)
    (hg : ∀ n, g = some n → Fetching s n) (hok : Addressed s g (.giveInput ibuf))
    (hs : s.giveInput ibuf = some (e, s')) (hn : noteGet g s (.giveInput ibuf) s' = some n) :
    Fetching s' n := by
  rcases giveInput_cases hd hs with ⟨hm, _, rfl⟩ | ⟨hm, hr⟩
  · rw [noteGet, if_pos hm] at hn
    exact (hg n hn).of_eq rfl rfl rfl rfl
  · rw [noteGet, if_neg (by simp [hm]), Option.map_eq_some_iff] at hn
    obtain ⟨n₀, rfl, rfl⟩ := hn
    exact (hg n₀ rfl).reply hok hm hr

/-- In every run that meets the condition a status of 2xx after a `get` is earned. -/
theorem status_2xx_earned {g : Option GetNotes} {n : GetNotes}
    (h : Run gets (fun s g c => Addressed s g c) s g) (hn : g = some n)
    (h2 : is2xx s.getStatus = true) : EarnedStatus s n := by
  refine ((run_keeps (I := fun s g => ∀ n, g = some n → Fetching s n) rfl ?_ ?_ ?_ ?_ ?_ h).2 n hn).earned h2
  · intro s g hx
    obtain ⟨⟨s₀, rfl⟩, rfl⟩ := hx
    exact ⟨⟨s₀, rfl⟩, nofun⟩
  · exact fun s g o s' hd hg _ hs n hn => fetching_op hd hg hs hn
  · exact fun s g hg n hn => (hg n hn).of_eq rfl rfl rfl rfl
  · intro s g hg n hn
    rcases isPortReady_cases s with heq | heq
    · rw [heq]
      exact hg n hn
    · rw [heq]
      exact (hg n hn).of_eq rfl rfl rfl rfl
  · exact fun s g ibuf e s' hd hg hok hgive n hn => fetching_giveInput hd hg hok hgive hn

end

/-- A login sent ahead of the hello. -/
def earlyLogin : Call := .op (.login ⟨ascii "u", no_nul_u⟩ ⟨ascii "p", no_nul_p⟩)

/-- The hello, and the refusal of the user. -/
def hello : Call := .giveInput (.ofAscii "220 hi" (by decide))

def refusal : Call := .giveInput (.ofAscii "530 no" (by decide))

def welcome : Call := .giveInput (.ofAscii "230 in" (by decide))

def getFile : Call := .op (.get ⟨ascii "f", no_nul_f⟩ none)

def passive (text : String) (h : 0 ∉ ascii text) : Call := .giveInput (.ofAscii text h)

/-- A `get` that the server serves. -/
theorem status_2xx_earned_get : ∃ s n, zeroed.init.run [earlyLogin, hello, .advanceOutput, welcome,
    getFile, passive "227 (1,2,3,4,5,6)" (by decide), passive "226 done" (by decide)] = some s ∧
    is2xx s.getStatus = true ∧ EarnedStatus s n := by
  have h0 : Run gets (fun s g c => Addressed s g c) zeroed.init none := .start ⟨⟨zeroed, rfl⟩, rfl⟩
  have h1 := h0.next (k := earlyLogin) trivial rfl
  have h2 := h1.next (k := hello) nofun rfl
  have h3 := h2.next (k := Call.advanceOutput) trivial rfl
  have h4 := h3.next (k := welcome) nofun rfl
  have h5 := h4.next (k := getFile) trivial rfl
  have h6 := h5.next (k := passive "227 (1,2,3,4,5,6)" (by decide))
    (fun _ _ _ => ⟨fun _ => by decide, nofun⟩) rfl
  have h7 := h6.next (k := passive "226 done" (by decide)) (fun _ _ _ => ⟨nofun, nofun⟩) rfl
  exact ⟨_, _, rfl, by decide, status_2xx_earned h7 rfl (by decide)⟩

/-- A 2xx reply to PASV without an address reads as a `get` that succeeded. -/
theorem status_2xx_without_address : ¬ ∀ (s : FtpClientProto) (n : GetNotes),
    Run gets (fun _ _ _ => True) s (some n) → is2xx s.getStatus = true → EarnedStatus s n := by
  intro hall
  have h0 : Run gets (fun _ _ _ => True) zeroed.init none := .start ⟨⟨zeroed, rfl⟩, rfl⟩
  have hfollow : ((follow (fun s _ c => s.step c) noteGet zeroed.init none [earlyLogin, hello, .advanceOutput, welcome,
      getFile, passive "227 ok" (by decide)]).map fun r => (r.1.getStatus, r.2.map GetNotes.codes)) =
      some (227, some []) := by decide
  obtain ⟨⟨s, g⟩, hr, heq⟩ := Option.map_eq_some_iff.1 hfollow
  rw [Prod.mk.injEq, Option.map_eq_some_iff] at heq
  obtain ⟨hstatus, n, rfl, hcodes⟩ := heq
  have hrun := h0.follow (fun _ _ _ _ h => ⟨trivial, h⟩) hr
  have htaken := (hall s n hrun (by rw [hstatus]; decide)).taken
  rw [hcodes] at htaken
  cases htaken

end Dkftpbench.FtpClientProto
