import Dkftpbench.ProtoStatus

/-!
# What isPortReady reports

The address of a reply to PASV is kept until it is asked for. While the get goes on it is
that get's. What is left over when the final reply to RETR comes is reported later, when
there is no get or another one is in progress.
-/
namespace Dkftpbench.FtpClientProto
open CLib Watch

/-- The get in progress with the address in the reply to its PASV, and whether an address
was left over by a get and none has been parsed since. -/
structure PortNotes where
  underway : Option (Option SockaddrIn)
  leftover : Bool

def PortNotes.takeReply (n : PortNotes) (s : FtpClientProto) (ibuf : Line) : PortNotes :=
  if s.isFinal ibuf then ⟨none, n.leftover || (s.state == .retr && s.addressReady)⟩
  else if s.state = .pasv then ⟨n.underway.map fun _ => parsePasv ibuf, false⟩
  else n

def PortNotes.issue (n : PortNotes) : Op → PortNotes
  | .get _ _ => { n with underway := some none }
  | _ => { n with underway := none }

def notePort (n : PortNotes) (s : FtpClientProto) : Call → FtpClientProto → PortNotes
  | .op o, _ => if s.accepts o then n.issue o else n
  | .giveInput ibuf, _ => if s.multiline then n else n.takeReply s ibuf
  | _, _ => n

/-- An address that is ready is that of the get in progress, or it was left over. -/
structure PortKnown (s : FtpClientProto) (n : PortNotes) : Prop where
  pasv : s.state = .pasv → n.underway.isSome = true
  fresh : s.addressReady = true → n.leftover = false → s.state = .retr ∧ n.underway = some (some s.address)
  stale : n.leftover = true → ∀ a, n.underway ≠ some (some a)

section
variable {s s' : FtpClientProto} {n : PortNotes} {ibuf : Line} {o : Op} {e : ℤ} {a : SockaddrIn}

theorem PortKnown.of_eq (h : PortKnown s n) (hstate : s'.state = s.state)
    (hready : s'.addressReady = true → s.addressReady = true) (haddr : s'.address = s.address) : PortKnown s' n := by
  refine ⟨fun hst => h.pasv (hstate.symm.trans hst), fun hr hl => ?_, h.stale⟩
  rw [hstate, haddr]
  exact h.fresh (hready hr) hl

/-- Outside RETR an address that is ready was left over. -/
theorem PortKnown.moved {m : PortNotes} (h : PortKnown s n) (hretr : s.state ≠ .retr)
    (hready : s'.addressReady = s.addressReady) (hleft : m.leftover = n.leftover)
    (hpasv : s'.state = .pasv → m.underway.isSome = true) (hstale : ∀ a, m.underway = some (some a) → m = n) :
    PortKnown s' m := by
  refine ⟨hpasv, fun hr hl => ?_, fun hl a ha => ?_⟩
  · exact absurd (h.fresh (hready ▸ hr) (hleft ▸ hl)).1 hretr
  · rw [hstale a ha] at hl ha
    exact h.stale hl a ha

theorem PortKnown.op (h : PortKnown s n) (hd : s.Disciplined) (hs : s.step (.op o) = some s') :
    PortKnown s' (notePort n s (.op o) s') := by
  rcases step_op_cases hd hs with ⟨hno, rfl⟩ | ⟨hyes, hi⟩
  · rw [notePort, hno]
    exact h
  · rw [notePort, hyes, if_pos rfl]
    cases hi with
    | loginEarly u p hst =>
        exact h.moved (by simp [hst]) rfl rfl (fun hpasv => absurd (hst.symm.trans hpasv) (by decide)) nofun
    | login u p hst | cd d hst | type t hst | size f hst | getPort f adr hst =>
        exact h.moved (by simp [hst]) rfl rfl nofun nofun
    | getPasv f hst => exact h.moved (by simp [hst]) rfl rfl (fun _ => rfl) nofun

/-- The final reply of an operation. -/
theorem PortKnown.answered (h : PortKnown s n) (hst : s'.state ≠ .pasv)
    (hready : s'.addressReady = s.addressReady) (hfinal : s.isFinal ibuf = true) :
    PortKnown s' (n.takeReply s ibuf) := by
  rw [PortNotes.takeReply, if_pos hfinal]
  refine ⟨fun hpasv => absurd hpasv hst, fun hr hl => ?_, nofun⟩
  rw [hready] at hr
  rw [Bool.or_eq_false_iff] at hl
  rw [(h.fresh hr hl.1).1, hr] at hl
  cases hl.2

/-- A reply that is not final, outside PASV. -/
theorem PortNotes.takeReply_eq (hst : s.state ≠ .pasv) (hfinal : s.isFinal ibuf = false) :
    n.takeReply s ibuf = n := by
  rw [takeReply, if_neg (by simp [hfinal]), if_neg hst]

/-- The replies after which nothing is awaited are final. -/
theorem Reply.isFinal (hr : Reply s ibuf (atoi ibuf.text) e s') (hst : s'.state = .idle ∨ s'.state = .init)
    (hne : s.state ≠ .idle) : s.isFinal ibuf = true := by
  rcases hr.settles with ⟨hfinal, _⟩ | ⟨_, ⟨hidle, _⟩ | ⟨hidle, hinit⟩⟩
  · exact hfinal
  · exact absurd hidle hne
  · exact absurd hst (not_or.2 ⟨hidle, hinit⟩)

theorem PortKnown.reply (h : PortKnown s n) (hr : Reply (s.saveStatus ibuf) ibuf (atoi ibuf.text) e s') :
    PortKnown s' (n.takeReply s ibuf) := by
  have hanswers : (s'.state = .idle ∨ s'.state = .init) → s.state ≠ .idle → s.isFinal ibuf = true := hr.isFinal
  have hstate : (s.saveStatus ibuf).state = s.state := rfl
  cases hr with
  | helloUser hst | hello hst | refused hst =>
      rw [hstate] at hst
      rw [PortNotes.takeReply_eq (by simp [hst]) (by simp [isFinal, hst])]
      exact h.moved (by simp [hst]) rfl rfl nofun fun _ _ => rfl
  | askPass hst h3 =>
      rw [hstate] at hst
      rw [PortNotes.takeReply_eq (by simp [hst]) (by simp [isFinal, hst, h3])]
      exact h.moved (by simp [hst]) rfl rfl nofun fun _ _ => rfl
  | portOk hst h2 =>
      rw [hstate] at hst
      rw [PortNotes.takeReply_eq (by simp [hst]) (by simp [isFinal, hst, h2])]
      exact h.moved (by simp [hst]) rfl rfl nofun fun _ _ => rfl
  | pasvOk address hst h2 hp =>
      rw [hstate] at hst
      obtain ⟨p, hp'⟩ := Option.isSome_iff_exists.1 (h.pasv hst)
      have hno : s.isFinal ibuf = false := by simp [isFinal, hst, h2, hp]
      rw [PortNotes.takeReply, if_neg (by simp [hno]), if_pos hst, hp', hp]
      exact ⟨nofun, fun _ _ => ⟨rfl, rfl⟩, nofun⟩
  | retrMark hst h1 =>
      rw [hstate] at hst
      rw [PortNotes.takeReply_eq (by simp [hst]) (by simp [isFinal, hst, h1])]
      exact h.of_eq rfl id rfl
  | unexpected hst =>
      rw [hstate] at hst
      have hno : s.state ≠ .pasv ∧ s.isFinal ibuf = false := by
        rcases hst with hst | hst | hst | hst <;> simp [isFinal, hst]
      rw [PortNotes.takeReply_eq hno.1 hno.2]
      exact h.of_eq rfl id rfl
  | loggedIn hst =>
      rw [hstate] at hst
      exact h.answered nofun rfl (hanswers (.inl rfl) (by rcases hst with hst | hst <;> simp [hst]))
  | loginFailed hst =>
      rw [hstate] at hst
      exact h.answered nofun rfl (hanswers (.inr rfl) (by rcases hst with ⟨hst, _⟩ | hst <;> simp [hst]))
  | done hst =>
      rw [hstate] at hst
      exact h.answered nofun rfl (hanswers (.inl rfl) (by rcases hst with hst | hst | hst <;> simp [hst]))
  | abandoned hst =>
      rw [hstate] at hst
      exact h.answered nofun rfl (hanswers (.inl rfl) (by rcases hst with ⟨hst, _⟩ | ⟨hst, _⟩ <;> simp [hst]))
  | retrDone hst =>
      rw [hstate] at hst
      exact h.answered nofun rfl (hanswers (.inl rfl) (by simp [hst]))

end

end Dkftpbench.FtpClientProto
