import Dkftpbench.ProtoRuns

/-!
# Multi-line replies

The first line of a reply moves the state machine on, and its other lines should only
be passed over. What those lines can touch is `multiline`; what the first line leaves
behind differs from what a single line would leave in `multiline` and `response`. No
operation reads either, so a run with the whole reply is a run with the single line,
reframed, for as long as no continuation line is mistaken for the last one.
-/
namespace Dkftpbench.FtpClientProto
open CLib

/-- A reply code: three digits, from 100 to 599. -/
structure ReplyCode where
  digits : List Byte
  length_eq : digits.length = 3
  all_digits : ∀ d ∈ digits, isdigit d = true
  ge : 100 ≤ digitsValue digits
  le : digitsValue digits ≤ 599

def ReplyCode.value (code : ReplyCode) : ℤ := digitsValue code.digits

/-- The line starts with the digits of the code followed by a space. -/
def Ends (code : ReplyCode) (ibuf : Line) : Prop := code.digits ++ [SPACE] <+: ibuf.text

def isLine : Call → Bool
  | .giveInput _ => true
  | _ => false

/-- The calls among which the lines of the reply were given. -/
def apiCalls (cs : List Call) : List Call := cs.filter fun c => !isLine c

/-- A reply of several lines, given with other calls in between, and the single line
with the same code and text. -/
structure MultiLine (code : ReplyCode) (first last single : Line) (script : List Call) : Prop where
  first : ∃ t, first.text = code.digits ++ MINUS :: t ∧ single.text = code.digits ++ SPACE :: t
  next : ∀ ibuf, Call.giveInput ibuf ∈ script → LF ∉ ibuf.text ∧ ¬ Ends code ibuf
  last : LF ∉ last.text ∧ Ends code last

/-- Equal in the fields that a reply should determine. -/
structure SameOutcome (a b : FtpClientProto) : Prop where
  state : a.state = b.state
  stack : a.stack = b.stack
  stackPtr : a.stackPtr = b.stackPtr
  status : a.status = b.status
  output : a.getOutput = b.getOutput
  address : a.address = b.address
  addressReady : a.addressReady = b.addressReady

/-- The reply is taken as the single line is, and nothing but its last line ends it. -/
structure Framed (s : FtpClientProto) (first last single : Line) (script : List Call) : Prop where
  same : ∃ a b, s.run (.giveInput first :: script ++ [.giveInput last]) = some a ∧
    s.run (.giveInput single :: apiCalls script) = some b ∧ SameOutcome a b
  before_last : ∀ cs, cs <+: script → ∃ a, s.run (.giveInput first :: cs) = some a ∧
    a.multiline = true
  after_last : ∃ a, s.run (.giveInput first :: script ++ [.giveInput last]) = some a ∧
    a.multiline = false

/-- Three white-space bytes and a space, and behind them what reads as the code. -/
structure Misread (code : ReplyCode) (ibuf : Line) : Prop where
  blank : ∀ c ∈ ibuf.text.take 3, isspace c = true
  space : ibuf.text[3]? = some SPACE
  number : atoi (ibuf.text.drop 4) = code.value

def reframe (s : FtpClientProto) (multiline : Bool) (response : List Byte) : FtpClientProto :=
  { s with multiline := multiline, response := response }

section
variable {s s' t : FtpClientProto} {ibuf ibuf' : Line} {status e : ℤ} {code : ReplyCode}
variable {m : Bool} {r : List Byte} {o : Op} {c : Call} {cs : List Call}

theorem popState_reframe :
    (s.reframe m r).popState = s.popState.map fun x => (x.1, x.2.reframe m r) := by
  cases h : s.stackPtr with
  | zero => simp [popState, reframe, h]
  | succ n => simp [popState, reframe, h]

theorem returnState_reframe :
    (s.reframe m r).returnState = s.returnState.map (·.reframe m r) := by
  simp only [returnState, popState_reframe, Option.map_map]
  rfl

theorem abandon_reframe :
    (s.reframe m r).abandon = s.abandon.map (·.reframe m r) := by
  simp only [abandon, popState_reframe, Option.map_map]
  rfl

theorem takeReply_reframe : (s.reframe m r).takeReply ibuf status =
    (s.takeReply ibuf status).map fun x => (x.1, x.2.reframe m r) := by
  unfold takeReply
  rw [show (s.reframe m r).state = s.state from rfl]
  cases s.state with
  | init =>
      rw [show (s.reframe m r).sentUser = s.sentUser from rfl]
      cases is2xx status with
      | false => rfl
      | true => cases s.sentUser <;> rfl
  | user =>
      cases is2xx status with
      | true => rfl
      | false => cases is3xx status <;> rfl
  | pass => cases is2xx status <;> rfl
  | port =>
      cases is2xx status <;>
        simp [returnState_reframe, abandon_reframe, Option.map_map, Function.comp_def]
  | pasv =>
      cases is2xx status with
      | false => simp [abandon_reframe, Option.map_map, Function.comp_def]
      | true =>
          cases parsePasv ibuf with
          | none => simp [abandon_reframe, Option.map_map, Function.comp_def]
          | some address =>
              have hset : (s.reframe m r).setAddress address = (s.setAddress address).reframe m r := rfl
              simp only [hset, returnState_reframe, Option.map_map]
              congr 1
              funext t
              change (0, if t.state = .retr then _ else _) = _
              dsimp only [Function.comp]
              split <;> rfl
  | retr => cases is1xx status <;> rfl
  | cwd | type | size | uninit | connected | idle | quit => rfl

theorem command_reframe {line : List Byte} {next : Fcps} : (s.reframe m r).command line next =
    ((s.command line next).1, (s.command line next).2.reframe m r) := by
  unfold command
  rw [show (s.reframe m r).state = s.state from rfl,
    show (s.reframe m r).isOutputReady = s.isOutputReady from rfl]
  split
  · rfl
  · split <;> rfl

theorem login_reframe {u p : CStr} : (s.reframe m r).login u p =
    ((s.login u p).1, (s.login u p).2.reframe m r) := by
  unfold login
  rw [show (s.reframe m r).state = s.state from rfl,
    show (s.reframe m r).sentUser = s.sentUser from rfl,
    show (s.reframe m r).isOutputReady = s.isOutputReady from rfl]
  split
  · rfl
  · split
    · rfl
    · split
      · rfl
      · dsimp only
        rw [show ((s.reframe m r).queueUser u p).state = (s.queueUser u p).state from rfl]
        split <;> rfl

theorem callState_reframe {jumpTo returnTo : Fcps} : (s.reframe m r).callState jumpTo returnTo =
    (s.callState jumpTo returnTo).map (·.reframe m r) := by
  unfold callState
  rw [show (s.reframe m r).stackPtr = s.stackPtr from rfl]
  split <;> rfl

theorem get_reframe {f : CStr} {adr : Option SockaddrIn} : (s.reframe m r).get f adr =
    (s.get f adr).map fun x => (x.1, x.2.reframe m r) := by
  unfold get
  rw [show (s.reframe m r).state = s.state from rfl,
    show (s.reframe m r).isOutputReady = s.isOutputReady from rfl]
  split
  · rfl
  · split
    · rfl
    · split
      · rfl
      · cases adr with
        | none =>
            change (reframe ((s.setFname f).putLine _) m r |>.callState _ _).map _ = _
            rw [callState_reframe, Option.map_map, Option.map_map]
            rfl
        | some adr =>
            change (reframe ((s.setFname f).putLine _) m r |>.callState _ _).map _ = _
            rw [callState_reframe, Option.map_map, Option.map_map]
            rfl

theorem perform_reframe : (s.reframe m r).perform o =
    (s.perform o).map fun x => (x.1, x.2.reframe m r) := by
  cases o with
  | login u p => exact congrArg some login_reframe
  | cd dir => exact congrArg some command_reframe
  | type t => exact congrArg some command_reframe
  | size f => exact congrArg some command_reframe
  | get f adr => exact get_reframe
  | quit | ls => rfl

theorem step_reframe (h : isLine c = false) :
    (s.reframe m r).step c = (s.step c).map (·.reframe m r) := by
  cases c with
  | giveInput ibuf => cases h
  | advanceOutput => rfl
  | isPortReady =>
      simp only [step, isPortReady, Option.map_some]
      rw [show (s.reframe m r).addressReady = s.addressReady from rfl]
      cases s.addressReady <;> rfl
  | op o =>
      simp only [step, perform_reframe, Option.map_map]
      rfl

theorem Reply.kept (h : Reply s ibuf status e s') :
    s'.status = s.status ∧ s'.multiline = s.multiline := by
  cases h <;> exact ⟨rfl, rfl⟩

theorem Issued.kept (h : Issued s o s') : s'.status = s.status ∧ s'.multiline = s.multiline := by
  cases h <;> exact ⟨rfl, rfl⟩

/-- A call that gives no line returns, and leaves the number of the last reply alone. -/
theorem step_of_not_isLine (h : s.Disciplined) (hc : isLine c = false) :
    ∃ s', s.step c = some s' ∧ s'.status = s.status := by
  cases c with
  | giveInput ibuf => cases hc
  | advanceOutput => exact ⟨_, rfl, rfl⟩
  | isPortReady =>
      refine ⟨_, rfl, ?_⟩
      unfold isPortReady
      split <;> rfl
  | op o =>
      rcases perform_spec h o with ⟨e, _, heq⟩ | ⟨s', heq, hi⟩
      · exact ⟨s, by rw [step, heq]; rfl, rfl⟩
      · exact ⟨s', by rw [step, heq]; rfl, hi.kept.1⟩

/-- A line that is not mistaken for the last one changes nothing. -/
theorem giveInput_continued (hlf : LF ∉ ibuf.text)
    (hend : ¬ (ibuf.at 3 = SPACE ∧ atoi ibuf.text = s.status)) :
    (s.reframe true r).giveInput ibuf = some (0, s.reframe true r) := by
  rw [giveInput, if_neg hlf]
  exact if_neg hend

theorem giveInput_ended (hlf : LF ∉ ibuf.text) (hend : ibuf.at 3 = SPACE ∧ atoi ibuf.text = s.status) :
    (s.reframe true r).giveInput ibuf = some (0, s.reframe false r) := by
  rw [giveInput, if_neg hlf]
  exact if_pos hend

/-- The whole reply up to its last line, and the single line, side by side. -/
theorem run_reframe (h : s.Disciplined) (hlf : ∀ ibuf, Call.giveInput ibuf ∈ cs → LF ∉ ibuf.text)
    (hend : ∀ ibuf, Call.giveInput ibuf ∈ cs → ¬ (ibuf.at 3 = SPACE ∧ atoi ibuf.text = s.status)) :
    ∃ t, s.run (apiCalls cs) = some t ∧ (s.reframe true r).run cs = some (t.reframe true r) ∧
      t.status = s.status := by
  induction cs generalizing s with
  | nil => exact ⟨s, rfl, rfl, rfl⟩
  | cons c cs ih =>
      cases hc : isLine c with
      | true =>
          cases c with
          | op | advanceOutput | isPortReady => cases hc
          | giveInput ibuf =>
              obtain ⟨t, ht, hrun, hst⟩ := ih h (fun l hl => hlf l (List.mem_cons_of_mem _ hl))
                fun l hl => hend l (List.mem_cons_of_mem _ hl)
              refine ⟨t, ht, ?_, hst⟩
              rw [run, step, giveInput_continued (hlf _ (by simp)) (hend _ (by simp))]
              exact hrun
      | false =>
          obtain ⟨s', hs, hst'⟩ := step_of_not_isLine h hc
          obtain ⟨t, ht, hrun, hst⟩ := ih (step_disciplined h hs)
            (fun l hl => hlf l (List.mem_cons_of_mem _ hl))
            fun l hl => hst' ▸ hend l (List.mem_cons_of_mem _ hl)
          have hcalls : apiCalls (c :: cs) = c :: apiCalls cs := by simp [apiCalls, hc]
          refine ⟨t, ?_, ?_, hst.trans hst'⟩
          · rw [hcalls, run, hs]
            exact ht
          · rw [run, step_reframe hc, hs]
            exact hrun

theorem ReplyCode.atoi_text {sep : Byte} {cs : List Byte} (hsep : isdigit sep = false) :
    atoi (code.digits ++ sep :: cs) = code.value := by
  refine atoi_digits ?_ code.all_digits (by simpa using hsep) (by have := code.le; omega)
  intro hnil
  have := code.length_eq
  rw [hnil] at this
  cases this

theorem Line.at_of_prefix {pre : List Byte} {sep : Byte} (h : pre ++ [sep] <+: ibuf.text) :
    ibuf.at pre.length = sep := by
  obtain ⟨rest, hrest⟩ := h
  have hlen : pre.length < ibuf.text.length := by
    rw [← hrest]
    simp
  rw [Line.at_of_lt hlen]
  simp [← hrest]

theorem Ends.end_test (h : Ends code ibuf) : ibuf.at 3 = SPACE ∧ atoi ibuf.text = code.value := by
  constructor
  · rw [← code.length_eq]
    exact Line.at_of_prefix h
  · obtain ⟨rest, hrest⟩ := h
    rw [← hrest, List.append_assoc]
    exact code.atoi_text (by decide)

/-- Three bytes that read as the code are its digits. -/
theorem ReplyCode.eq_digits {cs : List Byte} (hlen : cs.length ≤ 3) (h : atoi cs = code.value) :
    cs = code.digits := by
  have hge := code.ge
  have hlong : ¬ (digitRun cs).length ≤ 2 := by
    intro hle
    have := natAbs_atoi_lt hle
    rw [h, ReplyCode.value] at this
    omega
  have hrun : digitRun cs = cs :=
    digitRun_sublist.eq_of_length (le_antisymm digitRun_sublist.length_le (by omega))
  have hdigits : ∀ d ∈ cs, isdigit d = true := fun d hd => isdigit_of_mem_digitRun (hrun.symm ▸ hd)
  have hne : cs ≠ [] := by
    intro heq
    subst heq
    exact hlong (by decide)
  have hlt := digitsValue_lt hdigits
  have hpow : 10^cs.length ≤ 10^3 := Nat.pow_le_pow_right (by decide) hlen
  have hvalue : atoi (cs ++ []) = _ := atoi_digits hne hdigits (by simp) (by omega)
  rw [List.append_nil, h, ReplyCode.value] at hvalue
  have hle : (digitRun cs).length ≤ cs.length := digitRun_sublist.length_le
  exact digitsValue_inj (by rw [code.length_eq]; omega) hdigits code.all_digits
    (by exact_mod_cast hvalue.symm)

/-- The end test takes a line for the last one exactly where it is the last one or
where the code is read behind blanks. -/
theorem end_test_iff_misread (hn : ¬ Ends code ibuf) :
    (ibuf.at 3 = SPACE ∧ atoi ibuf.text = code.value) ↔ Misread code ibuf := by
  constructor
  · rintro ⟨hat, hnum⟩
    rcases Nat.lt_or_ge 3 ibuf.text.length with hlong | hshort
    · obtain ⟨pre, rest, hlen, htext⟩ : ∃ pre rest, pre.length = 3 ∧ ibuf.text = pre ++ SPACE :: rest := by
        refine ⟨ibuf.text.take 3, ibuf.text.drop 4, by simp; omega, ?_⟩
        rw [← hat, Line.at_of_lt hlong, ← List.drop_eq_getElem_cons hlong, List.take_append_drop]
      by_cases hblank : ∃ c ∈ pre, isspace c = false
      · rw [htext, atoi_append_space hblank] at hnum
        refine absurd ⟨rest, ?_⟩ hn
        rw [htext, code.eq_digits hlen.le hnum, List.append_assoc]
        rfl
      · have hpre : ∀ c ∈ pre, isspace c = true := by simpa using hblank
        have hnum' : atoi rest = code.value := by
          rw [← hnum, htext, atoi_append_of_isspace hpre, atoi_cons_of_isspace (by decide)]
        refine ⟨?_, ?_, ?_⟩
        · rw [htext, ← hlen, List.take_left]
          exact hpre
        · rw [htext, ← hlen]
          simp
        · rw [htext, List.append_cons, List.drop_left' (by simp [hlen])]
          exact hnum'
    · have hdigits := code.eq_digits hshort hnum
      have hlen : 3 = ibuf.text.length := by rw [hdigits, code.length_eq]
      rw [Line.at, if_neg (by omega), if_pos hlen] at hat
      cases hat
  · rintro ⟨hblank, hspace, hnum⟩
    obtain ⟨hlong, hget⟩ := List.getElem?_eq_some_iff.1 hspace
    have htext : ibuf.text = ibuf.text.take 3 ++ SPACE :: ibuf.text.drop 4 := by
      rw [← hget, ← List.drop_eq_getElem_cons hlong, List.take_append_drop]
    constructor
    · rw [Line.at_of_lt hlong, hget]
    · rw [htext, atoi_append_of_isspace hblank, atoi_cons_of_isspace (by decide), hnum]

theorem ReplyCode.lf_free {sep : Byte} {cs : List Byte} (hsep : LF ≠ sep) (h : LF ∉ cs) :
    LF ∉ code.digits ++ sep :: cs := by
  have hdigits : LF ∉ code.digits := fun hin => absurd (code.all_digits _ hin) (by decide)
  rw [List.mem_append, List.mem_cons]
  exact fun hin => hin.elim hdigits fun hin => hin.elim hsep h

theorem takeWhile_append_cons {p : Byte → Bool} {xs ys : List Byte} {x : Byte} (hx : p x = false) :
    (xs ++ x :: ys).takeWhile p = xs.takeWhile p := by
  rw [List.takeWhile_append]
  split
  · next hall =>
    rw [List.takeWhile_cons_of_neg (by simp [hx]), List.append_nil]
    exact ((List.takeWhile_prefix p).eq_of_length hall).symm
  · rfl

/-- The search for the address stays behind the code. -/
theorem addressText_code {sep : Byte} {before cs : List Byte} (hcomma : sep ≠ COMMA)
    (hdigit : isdigit sep = false) :
    addressText before (code.digits ++ sep :: cs) = addressText [] cs := by
  have hskip : ∀ d ∈ code.digits ++ [sep], (d != COMMA) = true := by
    intro d hd
    rw [bne_iff_ne]
    rcases List.mem_append.1 hd with hd | hd
    · intro heq
      subst heq
      exact absurd (code.all_digits _ hd) (by decide)
    · rw [List.mem_singleton.1 hd]
      exact hcomma
  unfold addressText
  rw [List.append_cons, List.dropWhile_append_of_pos hskip, List.takeWhile_append_of_pos hskip]
  simp only [List.reverse_append, List.reverse_cons, List.append_assoc, List.cons_append,
    List.nil_append, List.append_nil, takeWhile_append_cons hdigit]

theorem parsePasv_code {t : List Byte} (h : ibuf.text = code.digits ++ MINUS :: t)
    (h' : ibuf'.text = code.digits ++ SPACE :: t) : parsePasv ibuf = parsePasv ibuf' := by
  unfold parsePasv
  rw [h, h', addressText_code (by decide) (by decide), addressText_code (by decide) (by decide)]

theorem takeReply_congr (h : parsePasv ibuf = parsePasv ibuf') :
    s.takeReply ibuf status = s.takeReply ibuf' status := by
  unfold takeReply
  rw [h]

theorem giveInput_eq (hm : s.multiline = false) (hlf : LF ∉ ibuf.text) :
    s.giveInput ibuf = (s.saveStatus ibuf).takeReply ibuf (atoi ibuf.text) := by
  rw [giveInput, if_neg hlf, hm]
  rfl

/-- The first line of the reply does what the single line does. -/
theorem giveInput_first {t : List Byte} (hm : s.multiline = false) (hlf : LF ∉ t)
    (h : ibuf.text = code.digits ++ MINUS :: t) (h' : ibuf'.text = code.digits ++ SPACE :: t) :
    s.giveInput ibuf = (s.giveInput ibuf').map fun x =>
      (x.1, x.2.reframe true (ibuf.text.take lineLen)) := by
  have hminus : ibuf.at 3 = MINUS := by
    rw [← code.length_eq]
    exact Line.at_of_prefix ⟨t, by rw [h, List.append_assoc]; rfl⟩
  have hnum : atoi ibuf.text = atoi ibuf'.text := by
    rw [h, h', code.atoi_text (by decide), code.atoi_text (by decide)]
  have hsave : s.saveStatus ibuf = (s.saveStatus ibuf').reframe true (ibuf.text.take lineLen) := by
    simp only [saveStatus, reframe, hnum, hminus, beq_self_eq_true, Bool.or_true]
  rw [giveInput_eq hm, giveInput_eq hm, hsave, takeReply_reframe, hnum,
    takeReply_congr (parsePasv_code h h')]
  · rw [h']
    exact code.lf_free (by decide) hlf
  · rw [h]
    exact code.lf_free (by decide) hlf

/-- As long as `multiline` stays set, no line has passed the end test. -/
theorem not_end_test_of_open (h : s.Disciplined)
    (hlf : ∀ ibuf, Call.giveInput ibuf ∈ cs → LF ∉ ibuf.text)
    (hopen : ∀ ds, ds <+: cs → ∃ a, (s.reframe true r).run ds = some a ∧ a.multiline = true) :
    ∀ ibuf, Call.giveInput ibuf ∈ cs → ¬ (ibuf.at 3 = SPACE ∧ atoi ibuf.text = s.status) := by
  induction cs using List.reverseRecOn with
  | nil => simp
  | append_singleton cs c ih =>
      have hlf' : ∀ ibuf, Call.giveInput ibuf ∈ cs → LF ∉ ibuf.text := fun l hl =>
        hlf l (List.mem_append_left _ hl)
      have hearlier := ih hlf' fun ds hds => hopen ds (hds.trans (List.prefix_append _ _))
      intro ibuf hin hend
      rcases List.mem_append.1 hin with hin | hin
      · exact hearlier ibuf hin hend
      · cases List.mem_singleton.1 hin
        obtain ⟨t, _, hrun, hst⟩ := run_reframe (r := r) h hlf' hearlier
        obtain ⟨a, ha, hma⟩ := hopen (cs ++ [.giveInput ibuf]) (List.prefix_refl _)
        rw [run_append, hrun, Option.bind_some, run, step,
          giveInput_ended (hlf ibuf (by simp)) (by rw [hst]; exact hend)] at ha
        cases ha
        cases hma

/-- A multi-line reply is taken as its single line would be, and is over with exactly
its last line, if and only if no line in between reads as the code behind blanks. -/
theorem framed_iff {first last single : Line} {script : List Call} (hs : s.Reachable)
    (hm : s.multiline = false) (hreply : MultiLine code first last single script)
    (haccept : ∃ s₁, s.giveInput first = some (0, s₁)) :
    Framed s first last single script ↔
      ∀ ibuf, Call.giveInput ibuf ∈ script → ¬ Misread code ibuf := by
  obtain ⟨s₁, haccept⟩ := haccept
  obtain ⟨t, hfirst, hsingle⟩ := hreply.first
  have hlf : LF ∉ t := by
    intro hin
    rw [giveInput, if_pos (by rw [hfirst]; simp [hin])] at haccept
    cases haccept
  have hboth := giveInput_first hm hlf hfirst hsingle
  have hlf' : LF ∉ single.text := by
    rw [hsingle]
    exact code.lf_free (by decide) hlf
  obtain ⟨e, b, hb, hr⟩ : ∃ e b, s.giveInput single = some (e, b) ∧
      Reply (s.saveStatus single) single (atoi single.text) e b := by
    rcases giveInput_spec hs.disciplined hlf' with ⟨hm', _⟩ | ⟨_, h⟩
    · cases hm.symm.trans hm'
    · exact h
  rw [hb, haccept] at hboth
  cases hboth
  have hstatus : b.status = code.value := by
    have hnum : atoi (code.digits ++ SPACE :: t) = code.value := code.atoi_text (by decide)
    rw [hr.kept.1, ← hnum, ← hsingle]
    rfl
  have hdisc : b.Disciplined := hr.disciplined (hs.disciplined.saveStatus single)
  have hlines : ∀ ibuf, Call.giveInput ibuf ∈ script → LF ∉ ibuf.text := fun l hl => (hreply.next l hl).1
  have hrun : ∀ cs, s.run (.giveInput first :: cs) = (b.reframe true _).run cs := fun cs => by
    rw [run, step, haccept]
    rfl
  constructor
  · intro hframed ibuf hin hmis
    have hopen := not_end_test_of_open hdisc hlines
      (fun ds hds => by simpa only [hrun] using hframed.before_last ds hds) ibuf hin
    rw [hstatus] at hopen
    exact hopen ((end_test_iff_misread (hreply.next ibuf hin).2).2 hmis)
  · intro hno
    have hend : ∀ ibuf, Call.giveInput ibuf ∈ script →
        ¬ (ibuf.at 3 = SPACE ∧ atoi ibuf.text = b.status) := by
      intro ibuf hin hend
      rw [hstatus] at hend
      exact hno ibuf hin ((end_test_iff_misread (hreply.next ibuf hin).2).1 hend)
    obtain ⟨a, hcalls, hwhole, hst⟩ := run_reframe hdisc hlines hend
    have hlast : s.run (.giveInput first :: script ++ [.giveInput last]) =
        some (a.reframe false (first.text.take lineLen)) := by
      have htest := hreply.last.2.end_test
      rw [← hstatus, ← hst] at htest
      rw [List.cons_append, hrun, run_append, hwhole, Option.bind_some, run, step,
        giveInput_ended hreply.last.1 htest]
      rfl
    refine ⟨⟨_, a, hlast, ?_, ⟨rfl, rfl, rfl, rfl, rfl, rfl, rfl⟩⟩, ?_, _, hlast, rfl⟩
    · rw [run, step, hb]
      exact hcalls
    · rintro cs ⟨ds, hcs⟩
      have hsub : ∀ c ∈ cs, c ∈ script := fun c hc => hcs ▸ List.mem_append_left ds hc
      obtain ⟨a', _, hpart, _⟩ := run_reframe (r := first.text.take lineLen) hdisc
        (fun l (hl : Call.giveInput l ∈ cs) => hlines l (hsub _ hl)) fun l hl => hend l (hsub _ hl)
      exact ⟨_, (hrun cs).trans hpart, rfl⟩

end

def code220 : ReplyCode :=
  ⟨ascii "220", by decide, List.all_eq_true.1 (by decide), by decide, by decide⟩

/-- The hello of a server, with a continuation line `text` and a login sent ahead. -/
def helloScript (text : String) (h : 0 ∉ ascii text) : List Call :=
  [.op (.login ⟨ascii "u", no_nul_u⟩ ⟨ascii "p", no_nul_p⟩), .giveInput (.ofAscii text h),
    .advanceOutput]

theorem hello_multiLine (text : String) (h : 0 ∉ ascii text) (hlf : LF ∉ ascii text)
    (hend : ¬ code220.digits ++ [SPACE] <+: ascii text) :
    MultiLine code220 (.ofAscii "220-Hi" (by decide)) (.ofAscii "220 ok" (by decide))
      (.ofAscii "220 Hi" (by decide)) (helloScript text h) := by
  refine ⟨⟨ascii "Hi", rfl, rfl⟩, ?_, by decide, ⟨ascii "ok", rfl⟩⟩
  intro ibuf hin
  simp only [helloScript, List.mem_cons, reduceCtorEq, Call.giveInput.injEq, List.not_mem_nil,
    false_or, or_false] at hin
  subst hin
  exact ⟨hlf, hend⟩

theorem framed_hello :
    Framed zeroed.init (.ofAscii "220-Hi" (by decide)) (.ofAscii "220 ok" (by decide))
      (.ofAscii "220 Hi" (by decide)) (helloScript "  220 users" (by decide)) := by
  refine (framed_iff ⟨zeroed, [], rfl⟩ rfl
    (hello_multiLine "  220 users" (by decide) (by decide) (by decide)) ⟨_, rfl⟩).2 ?_
  intro ibuf hin hmis
  simp only [helloScript, List.mem_cons, reduceCtorEq, Call.giveInput.injEq, List.not_mem_nil,
    false_or, or_false] at hin
  subst hin
  exact absurd hmis.space (by decide)

/-- With two more blanks the continuation line ends the reply. -/
theorem not_framed_padded : ¬ ∀ (s : FtpClientProto) (code : ReplyCode) (first last single : Line)
    (script : List Call), s.Reachable → s.multiline = false →
    MultiLine code first last single script → (∃ s₁, s.giveInput first = some (0, s₁)) →
    Framed s first last single script := by
  intro hall
  have hframed := hall zeroed.init code220 _ _ _ (helloScript "    220 users" (by decide))
    ⟨zeroed, [], rfl⟩ rfl
    (hello_multiLine "    220 users" (by decide) (by decide) (by decide)) ⟨_, rfl⟩
  obtain ⟨a, ha, hm⟩ := hframed.before_last _ (List.prefix_refl _)
  have hrun : (zeroed.init.run (.giveInput (.ofAscii "220-Hi" (by decide)) ::
      helloScript "    220 users" (by decide))).map multiline = some false := by decide
  rw [ha] at hrun
  cases hm.symm.trans (Option.some.inj hrun)

end Dkftpbench.FtpClientProto
