import VeyraCam.Link.LineText

/-! # The control link in bytes

The lines of a control link travel as bytes: the phone writes and reads them in
its default charset, the desktop takes a byte for a character, and `recv` returns
the bytes in pieces of any size. A link in bytes does what the control link does,
one line at a time.
-/

namespace VeyraCam

open TcpControlClient

structure Charset where
  encode : Text → Bytes
  decode : Bytes → Text

def toBytes (text : Text) : Bytes := text.map fun c => .ofNat c.toNat

def ofBytes (bytes : Bytes) : Text := bytes.map fun b => .ofNat b.toNat

namespace Charset

/-- ASCII text is written a byte for a character, and read so. -/
structure KeepsAscii (charset : Charset) : Prop where
  encode : ∀ text, (∀ c ∈ text, c.toNat < 128) → charset.encode text = toBytes text
  decode : ∀ text, (∀ c ∈ text, c.toNat < 128) → charset.decode (toBytes text) = text

end Charset

/-- `BufferedReader.readLine` on the bytes that have come, after a line that ended in a carriage
return or not; `none` while the line has not ended. -/
def readLine (skipLF : Bool) (bytes : Bytes) : Option (Bytes × Bool × Bytes) :=
  let bytes := if skipLF && bytes.head? = some 10 then bytes.tail else bytes
  let line := bytes.takeWhile fun b => b ≠ 10 && b ≠ 13
  match bytes.drop line.length with
  | [] => none
  | c :: rest => some (line, c = 13, rest)

structure ByteLink where
  desktop : ServiceManager
  phone : Phone
  accepted : Bool := false
  /-- What the phone has written and `recv` has not returned. -/
  toDesktop : Bytes := []
  /-- `accumulated` in `ReadLoop`, until it drops the connection. -/
  accumulated : Option Bytes := some []
  /-- The lines that `ReadLoop` has cut off and not handed over. -/
  lines : List Bytes := []
  /-- What the desktop has sent and the phone has not read. -/
  toPhone : Bytes := []
  skipLF : Bool := false

inductive ByteMove where
  /-- `recv` returns that many bytes, or fewer. -/
  | recv (size : ℕ)
  | link (move : Move)

def ByteMove.links (moves : List ByteMove) : List Move :=
  moves.filterMap fun
    | .link move => some move
    | .recv _ => none

namespace ByteLink

def sides (b : ByteLink) : ControlLink :=
  { desktop := b.desktop, phone := b.phone, accepted := b.accepted }

/-- What the sides have done, and the lines they have written in it. -/
def write (charset : Charset) (b : ByteLink) (l : ControlLink) : ByteLink :=
  { b with
    desktop := l.desktop
    phone := l.phone
    accepted := l.accepted
    toDesktop := b.toDesktop ++ l.toDesktop.flatMap fun line => charset.encode (line ++ ['\n'])
    toPhone := b.toPhone ++ l.toPhone.flatMap fun line => toBytes (line ++ ['\n']) }

/-- `recv` in `ReadLoop`, which is called when the lines of the last pass have been handed over. -/
def recv (b : ByteLink) (size : ℕ) : ByteLink :=
  let chunk := b.toDesktop.take (min size recvSize)
  if b.lines ≠ [] ∨ b.desktop.connection = none ∨ chunk = [] then b
  else
    let (accumulated, lines) := TcpControlClient.receive b.accumulated chunk
    { b with toDesktop := b.toDesktop.drop chunk.length, accumulated, lines }

/-- A move; `Disconnect` joins the thread of `ReadLoop`, which hands over its lines first. -/
def step (env : Platform) (android : Android) (charset : Charset) (b : ByteLink) :
    ByteMove → ByteLink
  | .recv size => b.recv size
  | .link .disconnectDevice =>
    if b.lines ≠ [] then b else b.write charset (b.sides.step env android .disconnectDevice)
  | .link (.readByDesktop myKeys) =>
    match b.lines with
    | [] => b
    | line :: lines =>
      if b.desktop.connection.isSome then
        { b with lines }.write charset
          (b.sides.desktopStep env (.controlLine (ofBytes line) myKeys))
      else b
  | .link (.readByPhone tokenBytes socketOk) =>
    if ControlLink.isReading b.phone then
      match readLine b.skipLF b.toPhone with
      | none => b
      | some (line, skipLF, toPhone) =>
        { b with skipLF, toPhone }.write charset
          (b.sides.phoneStep android
            [.line (charset.decode line) tokenBytes, .proceed socketOk, .proceed socketOk])
    else b
  | .link move => b.write charset (b.sides.step env android move)

def run (env : Platform) (android : Android) (charset : Charset) (b : ByteLink)
    (moves : List ByteMove) : ByteLink :=
  moves.foldl (step env android charset) b

end ByteLink

variable {env : Platform} {android : Android} {charset : Charset} {b : ByteLink}
  {l l' s : ControlLink} {text : Text}

theorem Printable.lt_128 (h : Printable text) : ∀ c ∈ text, c.toNat < 128 := fun c hc =>
  (h c hc).2.trans (by decide)

theorem Printable.ofBytes_toBytes (h : Printable text) : ofBytes (toBytes text) = text := by
  unfold ofBytes toBytes
  rw [List.map_map]
  refine (List.map_congr_left fun c hc => ?_).trans (List.map_id _)
  have hlt := h.lt_128 c hc
  simp only [Function.comp_apply, id_eq]
  rw [UInt8.toNat_ofNat_of_lt' (hlt.trans (by decide)), Char.ofNat_toNat]

theorem Printable.notMem_toBytes (h : Printable text) {byte : UInt8} (hb : byte.toNat < 32) :
    byte ∉ toBytes text := by
  intro hmem
  obtain ⟨c, hc, rfl⟩ := List.mem_map.mp hmem
  have hlow := (h c hc).1
  rw [UInt8.toNat_ofNat_of_lt' ((h.lt_128 c hc).trans (by decide))] at hb
  omega

theorem IsLine.fits {line : Text} (h : IsLine line) :
    toBytes line ≠ [] ∧ newline ∉ toBytes line ∧
      (toBytes line).length + recvSize ≤ kMaxLineLength := by
  refine ⟨List.map_eq_nil_iff.not.mpr h.ne_nil, h.printable.notMem_toBytes (by decide), ?_⟩
  rw [toBytes, List.length_map]
  exact h.length_le

theorem toBytes_concat_newline (text : Text) :
    toBytes (text ++ ['\n']) = toBytes text ++ [newline] := List.map_append

theorem flatMap_toBytes (lines : List Text) :
    lines.flatMap (fun line => toBytes (line ++ ['\n'])) =
      LineScanner.unlines newline (lines.map toBytes) := by
  simp only [LineScanner.unlines, List.flatMap_map, toBytes_concat_newline]

theorem Charset.KeepsAscii.flatMap_encode (hc : charset.KeepsAscii) {lines : List Text}
    (h : ∀ line ∈ lines, Printable line) :
    lines.flatMap (fun line => charset.encode (line ++ ['\n'])) =
      LineScanner.unlines newline (lines.map toBytes) := by
  rw [← flatMap_toBytes]
  refine List.flatMap_congr fun line hline => hc.encode _ ?_
  simpa [or_imp, forall_and] using (h line hline).lt_128

namespace ControlLink

/-! ## What is sent -/

/-- Only lines that can be read are on their way, and only such lines will be sent. -/
structure Clean (l : ControlLink) : Prop where
  toDesktop : ∀ line ∈ l.toDesktop, IsLine line
  toPhone : ∀ line ∈ l.toPhone, Printable line
  minted : l.phone.HasMinted
  tells : l.desktop.Tells

/-- From `l` the sides do what they do in `s`, from where no lines are on their way. -/
structure Appends (l s l' : ControlLink) : Prop where
  desktop : l'.desktop = s.desktop
  phone : l'.phone = s.phone
  accepted : l'.accepted = s.accepted
  toDesktop : l'.toDesktop = l.toDesktop ++ s.toDesktop
  toPhone : l'.toPhone = l.toPhone ++ s.toPhone

def cleared (l : ControlLink) : ControlLink := { l with toDesktop := [], toPhone := [] }

theorem appends_self (l : ControlLink) : Appends l l.cleared l :=
  ⟨rfl, rfl, rfl, (List.append_nil _).symm, (List.append_nil _).symm⟩

variable (env) in
theorem appends_desktopStep (l : ControlLink) (e : Event) :
    Appends l (l.cleared.desktopStep env e) (l.desktopStep env e) :=
  ⟨rfl, rfl, rfl, (List.append_nil _).symm, rfl⟩

variable (android) in
theorem appends_phoneStep (l : ControlLink) (events : List PhoneEvent) :
    Appends l (l.cleared.phoneStep android events) (l.phoneStep android events) :=
  ⟨rfl, rfl, rfl, rfl, (List.append_nil _).symm⟩

def Move.Writes : Move → Prop
  | .readByDesktop _ | .readByPhone _ _ => False
  | _ => True

theorem appends_step (l : ControlLink) {move : Move} (h : Move.Writes move) :
    Appends l (l.cleared.step env android move) (l.step env android move) := by
  cases move with
  | connectEnd ok => exact appends_desktopStep env l (.connectEnd ok)
  | disconnectDevice => exact appends_desktopStep env l .disconnectDevice
  | datagram source data => exact appends_desktopStep env l (.datagram source data)
  | command c =>
    by_cases hsends : l.desktop.isStreaming && l.desktop.connection.isSome
    · have hl : l.step env android (.command c) =
          { l with toPhone := l.toPhone ++ [c.message l.desktop.token] } := if_pos hsends
      have hcleared : l.cleared.step env android (.command c) =
          { l.cleared with toPhone := [c.message l.desktop.token] } := if_pos hsends
      rw [hl, hcleared]
      exact ⟨rfl, rfl, rfl, (List.append_nil _).symm, rfl⟩
    · have hl : l.step env android (.command c) = l := if_neg hsends
      have hcleared : l.cleared.step env android (.command c) = l.cleared := if_neg hsends
      rw [hl, hcleared]
      exact appends_self l
  | accept clientIp digits keys =>
    by_cases haccepted : l.accepted
    · have hl : l.step env android (.accept clientIp digits keys) = l := if_pos haccepted
      have hcleared : l.cleared.step env android (.accept clientIp digits keys) = l.cleared :=
        if_pos haccepted
      rw [hl, hcleared]
      exact appends_self l
    · have hl : l.step env android (.accept clientIp digits keys) =
          phoneStep android { l with accepted := true } [.accept clientIp digits keys] :=
        if_neg haccepted
      have hcleared : l.cleared.step env android (.accept clientIp digits keys) =
          phoneStep android { l.cleared with accepted := true } [.accept clientIp digits keys] :=
        if_neg haccepted
      rw [hl, hcleared]
      exact ⟨rfl, rfl, rfl, rfl, (List.append_nil _).symm⟩
  | hangup => exact appends_phoneStep android l [.hangup]
  | leave => exact appends_phoneStep android l [.proceed false]
  | send call => exact appends_phoneStep android l [.send call]
  | tick ms => exact appends_phoneStep android l [.tick ms]
  | readByDesktop | readByPhone => exact h.elim

theorem Clean.desktopStep (hb : env.lib.Base64Standard) (h : l.Clean) {e : Event}
    (he : ServiceManager.Told e) : (l.desktopStep env e).Clean := by
  obtain ⟨htells, hsent⟩ := h.tells.step hb he
  refine ⟨h.toDesktop, List.forall_mem_append.mpr ⟨h.toPhone, fun line hline => ?_⟩, h.minted,
    htells⟩
  have hsentBy : line ∈ sentByDesktop (l.desktop.step env e).2 := by
    by_cases hopen : l.desktop.connection.isSome
    · rwa [if_pos hopen] at hline
    · rw [if_neg hopen] at hline
      cases hline
  obtain ⟨o, ho, he⟩ := List.mem_filterMap.mp hsentBy
  cases o with
  | sendControlMessage text =>
    obtain rfl := Option.some.inj he
    exact hsent _ ho
  | _ => cases he

theorem Clean.phoneStep (hb : android.lib.Base64Standard)
    (hcapabilities : IsLine (Phone.capabilitiesMessage android)) (h : l.Clean)
    (events : List PhoneEvent) : (l.phoneStep android events).Clean := by
  obtain ⟨hminted, hlines⟩ := Phone.isLine_exec hb hcapabilities h.minted events
  exact ⟨List.forall_mem_append.mpr ⟨h.toDesktop, hlines⟩, h.toPhone, hminted, h.tells⟩

theorem Clean.readByDesktop (hdesktop : env.lib.Base64Standard) (h : l.Clean) (myKeys : KeyPair) :
    (l.step env android (.readByDesktop myKeys)).Clean := by
  obtain ⟨desktop, phone, accepted, toDesktop, toPhone⟩ := l
  cases toDesktop with
  | nil => exact h
  | cons line rest =>
    obtain ⟨hline, hrest⟩ := List.forall_mem_cons.mp h.toDesktop
    unfold ControlLink.step
    dsimp only
    split_ifs
    · have hclean : Clean { desktop, phone, accepted, toDesktop := rest, toPhone } :=
        ⟨hrest, h.toPhone, h.minted, h.tells⟩
      exact hclean.desktopStep hdesktop (e := .controlLine line myKeys) hline.printable
    · exact h

theorem Clean.readByPhone (hphone : android.lib.Base64Standard)
    (hcapabilities : IsLine (Phone.capabilitiesMessage android)) (h : l.Clean)
    (tokenBytes : FixedBytes 32) (socketOk : Bool) :
    (l.step env android (.readByPhone tokenBytes socketOk)).Clean := by
  obtain ⟨desktop, phone, accepted, toDesktop, toPhone⟩ := l
  cases toPhone with
  | nil => exact h
  | cons line rest =>
    unfold ControlLink.step
    dsimp only
    split_ifs
    · have hclean : Clean { desktop, phone, accepted, toDesktop, toPhone := rest } :=
        ⟨h.toDesktop, (List.forall_mem_cons.mp h.toPhone).2, h.minted, h.tells⟩
      exact hclean.phoneStep hphone hcapabilities _
    · exact h

/-- No move sends anything else. -/
theorem Clean.step (hdesktop : env.lib.Base64Standard) (hphone : android.lib.Base64Standard)
    (hcapabilities : IsLine (Phone.capabilitiesMessage android)) (h : l.Clean) (move : Move) :
    (l.step env android move).Clean := by
  cases move with
  | connectEnd ok => exact h.desktopStep hdesktop (e := .connectEnd ok) trivial
  | disconnectDevice => exact h.desktopStep hdesktop (e := .disconnectDevice) trivial
  | datagram source data => exact h.desktopStep hdesktop (e := .datagram source data) trivial
  | command c =>
    unfold ControlLink.step
    dsimp only
    split_ifs
    · exact ⟨h.toDesktop, List.forall_mem_append.mpr ⟨h.toPhone, List.forall_mem_singleton.mpr
        (c.printable_message h.tells.token)⟩, h.minted, h.tells⟩
    · exact h
  | readByDesktop myKeys => exact h.readByDesktop hdesktop myKeys
  | readByPhone tokenBytes socketOk =>
    exact h.readByPhone hphone hcapabilities tokenBytes socketOk
  | accept clientIp digits keys =>
    unfold ControlLink.step
    dsimp only
    split_ifs
    · exact h
    · have hclean : Clean { l with accepted := true } :=
        ⟨h.toDesktop, h.toPhone, h.minted, h.tells⟩
      exact hclean.phoneStep hphone hcapabilities _
  | hangup => exact h.phoneStep hphone hcapabilities [.hangup]
  | leave => exact h.phoneStep hphone hcapabilities [.proceed false]
  | send call => exact h.phoneStep hphone hcapabilities [.send call]
  | tick ms => exact h.phoneStep hphone hcapabilities [.tick ms]

end ControlLink

/-! ## What is carried -/

/-- The bytes of a link carry the lines of a control link with the same sides: those that have been
cut off, those behind them from what has been collected on, and those to the phone. -/
structure ByteLink.Carries (b : ByteLink) (l : ControlLink) : Prop where
  desktop : b.desktop = l.desktop
  phone : b.phone = l.phone
  accepted : b.accepted = l.accepted
  toDesktop : ∃ cut coming collected, l.toDesktop = cut ++ coming ∧ b.lines = cut.map toBytes ∧
    b.accumulated = some collected ∧ newline ∉ collected ∧
    collected ++ b.toDesktop = LineScanner.unlines newline (coming.map toBytes)
  toPhone : b.toPhone = LineScanner.unlines newline (l.toPhone.map toBytes)
  skipLF : b.skipLF = false

namespace ByteLink

theorem Carries.sides (h : b.Carries l) : b.sides = l.cleared := by
  simp only [ByteLink.sides, ControlLink.cleared, h.desktop, h.phone, h.accepted]

theorem Carries.write (hc : charset.KeepsAscii) (h : b.Carries l) (ha : l.Appends s l')
    (hclean : l'.Clean) : (b.write charset s).Carries l' := by
  obtain ⟨cut, coming, collected, htoDesktop, hlines, haccumulated, hnewline, hcollected⟩ :=
    h.toDesktop
  have hsent : ∀ line ∈ s.toDesktop, Printable line := fun line hline =>
    (hclean.toDesktop line (by rw [ha.toDesktop]; exact List.mem_append_right _ hline)).printable
  refine ⟨ha.desktop.symm, ha.phone.symm, ha.accepted.symm, ⟨cut, coming ++ s.toDesktop, collected,
    ?_, hlines, haccumulated, hnewline, ?_⟩, ?_, h.skipLF⟩
  · rw [ha.toDesktop, htoDesktop, List.append_assoc]
  · rw [List.map_append, LineScanner.unlines_append, ← hcollected, ← hc.flatMap_encode hsent,
      List.append_assoc]
    rfl
  · rw [ha.toPhone, List.map_append, LineScanner.unlines_append, ← h.toPhone, ← flatMap_toBytes]
    rfl

theorem receive_of_unlines {collected chunk rest : Bytes} {coming : List Text}
    (hcoming : ∀ line ∈ coming, IsLine line) (hnewline : newline ∉ collected)
    (hread : IsRead chunk)
    (h : collected ++ (chunk ++ rest) = LineScanner.unlines newline (coming.map toBytes)) :
    ∃ collected' cut coming',
      TcpControlClient.receive (some collected) chunk = (some collected', cut.map toBytes) ∧
      coming = cut ++ coming' ∧ newline ∉ collected' ∧
      collected' ++ rest = LineScanner.unlines newline (coming'.map toBytes) := by
  have hlines : ∀ line ∈ coming.map toBytes,
      line ≠ [] ∧ newline ∉ line ∧ line.length + recvSize ≤ kMaxLineLength :=
    List.forall_mem_map.mpr fun line hline => (hcoming line hline).fits
  have hzero : 0 ∉ chunk := by
    intro hmem
    have hunlines : 0 ∈ LineScanner.unlines newline (coming.map toBytes) := by
      rw [← h]
      simp [hmem]
    rcases LineScanner.mem_unlines hunlines with he | ⟨line, hline, hmem⟩
    · exact absurd he (by decide)
    · obtain ⟨text, htext, rfl⟩ := List.mem_map.mp hline
      exact (hcoming text htext).printable.notMem_toBytes (by decide) hmem
  have hlength : collected.length + chunk.length ≤ kMaxLineLength := by
    obtain ⟨c, chunk', rfl⟩ := List.exists_cons_of_ne_nil hread.1
    obtain ⟨line, ls, hls, hcases⟩ := LineScanner.cases_of_append_eq_unlines hnewline
      (fun line hline => (hlines line hline).2.1) h
    have hfits := (hlines line (hls ▸ List.mem_cons_self)).2.2
    have hsize := hread.2
    rcases hcases with ⟨-, rfl, -⟩ | ⟨-, hpre⟩
    · omega
    · have hle := hpre.length_le
      rw [List.length_append] at hle
      omega
  rw [receive_of_le hnewline (by rwa [cString_of_notMem hzero, List.length_append]),
    cString_of_notMem hzero]
  have hfits : ∀ line ∈ coming.map toBytes,
      line ≠ [] ∧ newline ∉ line ∧ line.length ≤ kMaxLineLength := fun line hline =>
    ⟨(hlines line hline).1, (hlines line hline).2.1,
      (Nat.le_add_right _ _).trans (hlines line hline).2.2⟩
  obtain ⟨collected', out, ls', hexec, hls, hrest, hnewline'⟩ :=
    LineScanner.exec_scan_of_unlines hnewline hfits h
  obtain ⟨cut, coming', rfl, rfl, rfl⟩ := List.map_eq_append_iff.mp hls
  exact ⟨collected', cut, coming', hexec, rfl, hnewline', hrest⟩

theorem Carries.recv (h : b.Carries l) (hclean : l.Clean) (size : ℕ) :
    (b.recv size).Carries l := by
  obtain ⟨cut, coming, collected, htoDesktop, hlines, haccumulated, hnewline, hcollected⟩ :=
    h.toDesktop
  unfold ByteLink.recv
  dsimp only
  split_ifs with hidle
  · exact h
  · simp only [not_or, not_not] at hidle
    obtain ⟨hcut, -, hchunk⟩ := hidle
    obtain rfl : cut = [] := List.map_eq_nil_iff.mp (hlines.symm.trans hcut)
    rw [List.nil_append] at htoDesktop
    have hread : IsRead (b.toDesktop.take (min size recvSize)) :=
      ⟨hchunk, (List.length_take_le _ _).trans (min_le_right _ _)⟩
    have hsplit : b.toDesktop.take (min size recvSize) ++
        b.toDesktop.drop (b.toDesktop.take (min size recvSize)).length = b.toDesktop :=
      List.prefix_iff_eq_append.mp (List.take_prefix _ _)
    generalize b.toDesktop.take (min size recvSize) = chunk at hread hsplit ⊢
    rw [← hsplit] at hcollected
    obtain ⟨collected', cut, coming', hreceive, rfl, hnewline', hrest⟩ :=
      receive_of_unlines (htoDesktop ▸ hclean.toDesktop) hnewline hread hcollected
    rw [haccumulated, hreceive]
    exact ⟨h.desktop, h.phone, h.accepted,
      ⟨cut, coming', collected', htoDesktop, rfl, rfl, hnewline', hrest⟩, h.toPhone, h.skipLF⟩

theorem readLine_unlines {line : Text} (h : Printable line) (rest : Bytes) :
    readLine false (toBytes line ++ newline :: rest) = some (toBytes line, false, rest) := by
  have hbytes : ∀ byte ∈ toBytes line, (byte ≠ 10 && byte ≠ 13) = true := by
    intro byte hbyte
    have hlf : byte ≠ 10 := fun he => h.notMem_toBytes (by decide) (he ▸ hbyte)
    have hcr : byte ≠ 13 := fun he => h.notMem_toBytes (by decide) (he ▸ hbyte)
    simp [hlf, hcr]
  have htake : (toBytes line ++ newline :: rest).takeWhile (fun b => b ≠ 10 && b ≠ 13) =
      toBytes line := by
    rw [List.takeWhile_append_of_pos hbytes, List.takeWhile_cons_of_neg (by decide),
      List.append_nil]
  unfold readLine
  dsimp only
  rw [Bool.false_and, if_neg (by decide), htake, List.drop_left]
  rfl

theorem Carries.readByDesktop (hc : charset.KeepsAscii) (h : b.Carries l) {myKeys : KeyPair}
    (hclean : l.Clean) (hclean' : (l.step env android (.readByDesktop myKeys)).Clean) :
    (b.step env android charset (.link (.readByDesktop myKeys))).Carries l ∨
      (b.step env android charset (.link (.readByDesktop myKeys))).Carries
        (l.step env android (.readByDesktop myKeys)) := by
  obtain ⟨cut, coming, collected, htoDesktop, hlines, haccumulated, hnewline, hcollected⟩ :=
    h.toDesktop
  cases cut with
  | nil =>
    left
    simpa only [ByteLink.step, hlines, List.map_nil] using h
  | cons line cut =>
    have hmem : line ∈ l.toDesktop := htoDesktop ▸ List.mem_append_left coming List.mem_cons_self
    have hprintable := (hclean.toDesktop line hmem).printable
    simp only [ByteLink.step, hlines, List.map_cons]
    by_cases hopen : b.desktop.connection.isSome
    · right
      rw [if_pos hopen, hprintable.ofBytes_toBytes]
      have hstep : l.step env android (.readByDesktop myKeys) =
          ControlLink.desktopStep env { l with toDesktop := cut ++ coming }
            (.controlLine line myKeys) := by
        unfold ControlLink.step
        dsimp only
        rw [htoDesktop]
        exact if_pos (h.desktop ▸ hopen)
      have hcarries : { b with lines := cut.map toBytes }.Carries
          { l with toDesktop := cut ++ coming } :=
        ⟨h.desktop, h.phone, h.accepted,
          ⟨cut, coming, collected, rfl, rfl, haccumulated, hnewline, hcollected⟩, h.toPhone,
          h.skipLF⟩
      rw [hstep] at hclean' ⊢
      have hsides : b.sides = ControlLink.cleared { l with toDesktop := cut ++ coming } := h.sides
      rw [hsides]
      exact hcarries.write hc (ControlLink.appends_desktopStep env _ _) hclean'
    · left
      rw [if_neg hopen]
      exact h

theorem Carries.readByPhone (hc : charset.KeepsAscii) (h : b.Carries l)
    {tokenBytes : FixedBytes 32} {socketOk : Bool} (hclean : l.Clean)
    (hclean' : (l.step env android (.readByPhone tokenBytes socketOk)).Clean) :
    (b.step env android charset (.link (.readByPhone tokenBytes socketOk))).Carries
      (l.step env android (.readByPhone tokenBytes socketOk)) := by
  have hphone : ControlLink.isReading b.phone = ControlLink.isReading l.phone := by rw [h.phone]
  simp only [ByteLink.step, h.skipLF, hphone]
  cases htoPhone : l.toPhone with
  | nil =>
    have hstep : l.step env android (.readByPhone tokenBytes socketOk) = l := by
      simp only [ControlLink.step, htoPhone]
    have hempty : b.toPhone = [] := by rw [h.toPhone, htoPhone]; rfl
    rw [hstep, hempty]
    split_ifs
    · exact h
    · exact h
  | cons line rest =>
    have hprintable : Printable line :=
      hclean.toPhone line (htoPhone ▸ List.mem_cons_self)
    have hread : readLine false b.toPhone =
        some (toBytes line, false, LineScanner.unlines newline (rest.map toBytes)) := by
      rw [h.toPhone, htoPhone, List.map_cons, LineScanner.unlines_cons]
      exact readLine_unlines hprintable _
    have hstep : l.step env android (.readByPhone tokenBytes socketOk) =
        if ControlLink.isReading l.phone then
          ControlLink.phoneStep android { l with toPhone := rest }
            [.line line tokenBytes, .proceed socketOk, .proceed socketOk]
        else l := by
      simp only [ControlLink.step, htoPhone]
    rw [hstep] at hclean' ⊢
    rw [hread]
    by_cases hreading : ControlLink.isReading l.phone
    · rw [if_pos hreading] at hclean' ⊢
      rw [if_pos hreading]
      dsimp only
      rw [hc.decode line hprintable.lt_128]
      have hcarries : { b with
          skipLF := false, toPhone := LineScanner.unlines newline (rest.map toBytes) }.Carries
          { l with toPhone := rest } :=
        ⟨h.desktop, h.phone, h.accepted, h.toDesktop, rfl, rfl⟩
      have hsides : b.sides = ControlLink.cleared { l with toPhone := rest } := h.sides
      rw [hsides]
      exact hcarries.write hc (ControlLink.appends_phoneStep android _ _) hclean'
    · rw [if_neg hreading, if_neg hreading]
      exact h

/-- A move of the link in bytes is one of the control link, or none. -/
theorem Carries.step (hc : charset.KeepsAscii) (hdesktop : env.lib.Base64Standard)
    (hphone : android.lib.Base64Standard)
    (hcapabilities : IsLine (Phone.capabilitiesMessage android)) (h : b.Carries l)
    (hclean : l.Clean) (move : ByteMove) :
    ∃ moves, moves.Sublist (ByteMove.links [move]) ∧
      (b.step env android charset move).Carries (l.run env android moves) ∧
      (l.run env android moves).Clean := by
  have hstep := hclean.step hdesktop hphone hcapabilities
  have hwrites (move : Move) (hm : ControlLink.Move.Writes move)
      (hb : b.step env android charset (.link move) =
        b.write charset (b.sides.step env android move)) :
      ∃ moves, moves.Sublist [move] ∧
        (b.step env android charset (.link move)).Carries (l.run env android moves) ∧
        (l.run env android moves).Clean := by
    refine ⟨[move], List.Sublist.refl _, ?_, hstep move⟩
    rw [hb, h.sides]
    exact h.write hc (ControlLink.appends_step l hm) (hstep move)
  match move with
  | .recv size => exact ⟨[], List.nil_sublist _, h.recv hclean size, hclean⟩
  | .link .disconnectDevice =>
    by_cases hlines : b.lines ≠ []
    · refine ⟨[], List.nil_sublist _, ?_, hclean⟩
      rw [ByteLink.step, if_pos hlines]
      exact h
    · exact hwrites .disconnectDevice trivial (by rw [ByteLink.step, if_neg hlines])
  | .link (.readByDesktop myKeys) =>
    rcases h.readByDesktop hc hclean (hstep (.readByDesktop myKeys)) with hcarries | hcarries
    · exact ⟨[], List.nil_sublist _, hcarries, hclean⟩
    · exact ⟨[_], List.Sublist.refl _, hcarries, hstep (.readByDesktop myKeys)⟩
  | .link (.readByPhone tokenBytes socketOk) =>
    have hcarries := h.readByPhone hc hclean (hstep (.readByPhone tokenBytes socketOk))
    exact ⟨[_], List.Sublist.refl _, hcarries, hstep (.readByPhone tokenBytes socketOk)⟩
  | .link (.connectEnd ok) => exact hwrites (.connectEnd ok) trivial rfl
  | .link (.datagram source data) => exact hwrites (.datagram source data) trivial rfl
  | .link (.command c) => exact hwrites (.command c) trivial rfl
  | .link (.accept clientIp digits keys) =>
    exact hwrites (.accept clientIp digits keys) trivial rfl
  | .link .hangup => exact hwrites .hangup trivial rfl
  | .link .leave => exact hwrites .leave trivial rfl
  | .link (.send call) => exact hwrites (.send call) trivial rfl
  | .link (.tick ms) => exact hwrites (.tick ms) trivial rfl

def recvs (b : ByteLink) (sizes : List ℕ) : ByteLink := sizes.foldl recv b

theorem recvs_of_lines (h : b.lines ≠ []) (sizes : List ℕ) : b.recvs sizes = b := by
  induction sizes with
  | nil => rfl
  | cons size sizes ih =>
    have hrecv : b.recv size = b := if_pos (.inl h)
    rw [recvs, List.foldl_cons, hrecv]
    exact ih

theorem length_recv_lt (hlines : b.lines = []) (hopen : b.desktop.connection ≠ none)
    (hne : b.toDesktop ≠ []) {size : ℕ} (hsize : 0 < size) :
    (b.recv size).toDesktop.length < b.toDesktop.length := by
  have hpos : 0 < b.toDesktop.length := List.length_pos_of_ne_nil hne
  have hchunk : b.toDesktop.take (min size recvSize) ≠ [] := by
    have hmin : 0 < min size recvSize := lt_min hsize (by decide)
    simpa [List.take_eq_nil_iff, hne] using hmin.ne'
  have hidle : ¬ (b.lines ≠ [] ∨ b.desktop.connection = none ∨
      b.toDesktop.take (min size recvSize) = []) := by
    simp only [not_or, not_not]
    exact ⟨hlines, hopen, hchunk⟩
  have htaken := List.length_pos_of_ne_nil hchunk
  unfold recv
  dsimp only
  rw [if_neg hidle, List.length_drop]
  omega

theorem Carries.toDesktop_ne_nil (h : b.Carries l) (hlines : b.lines = [])
    (hline : l.toDesktop ≠ []) : b.toDesktop ≠ [] := by
  obtain ⟨cut, coming, collected, htoDesktop, hcut, -, hnewline, hcollected⟩ := h.toDesktop
  obtain rfl : cut = [] := List.map_eq_nil_iff.mp (hcut.symm.trans hlines)
  obtain ⟨line, coming, rfl⟩ := List.exists_cons_of_ne_nil (htoDesktop ▸ hline)
  intro hnil
  rw [hnil, List.append_nil] at hcollected
  exact hnewline (by rw [hcollected]; simp)

/-- A line on its way to an open connection is there after a call of `recv` for each byte, however
few bytes each returns. -/
theorem Carries.ready (h : b.Carries l) (hclean : l.Clean) (hline : l.toDesktop ≠ [])
    (hopen : l.desktop.connection ≠ none) {sizes : List ℕ} (hsizes : ∀ size ∈ sizes, 0 < size)
    (hlength : b.toDesktop.length ≤ sizes.length) : (b.recvs sizes).lines ≠ [] := by
  induction sizes generalizing b with
  | nil =>
    intro hlines
    exact h.toDesktop_ne_nil hlines hline (List.eq_nil_of_length_eq_zero (Nat.le_zero.mp hlength))
  | cons size sizes ih =>
    obtain ⟨hsize, hsizes⟩ := List.forall_mem_cons.mp hsizes
    by_cases hlines : b.lines = []
    · have hlt := length_recv_lt hlines (h.desktop ▸ hopen) (h.toDesktop_ne_nil hlines hline) hsize
      rw [List.length_cons] at hlength
      exact ih (h.recv hclean size) hsizes (by omega)
    · rw [recvs_of_lines hlines]
      exact hlines

def start (env : Platform) (desktop : ServiceManager) (phone : Phone) (hostIp : Text)
    (typed : List.Vector (Fin 10) PairingManager.pinLength) (onStatus : Bool) : ByteLink :=
  let l := ControlLink.start env desktop phone hostIp typed onStatus
  { desktop := l.desktop, phone := l.phone }

/-- A run of the link in bytes is one of the control link. -/
theorem Carries.run (hc : charset.KeepsAscii) (hdesktop : env.lib.Base64Standard)
    (hphone : android.lib.Base64Standard)
    (hcapabilities : IsLine (Phone.capabilitiesMessage android)) (h : b.Carries l)
    (hclean : l.Clean) (moves : List ByteMove) :
    ∃ moves', moves'.Sublist (ByteMove.links moves) ∧
      (b.run env android charset moves).Carries (l.run env android moves') ∧
      (l.run env android moves').Clean := by
  induction moves generalizing b l with
  | nil => exact ⟨[], List.nil_sublist _, h, hclean⟩
  | cons move moves ih =>
    obtain ⟨first, hfirst, hcarries, hclean⟩ := h.step hc hdesktop hphone hcapabilities hclean move
    obtain ⟨rest, hrest, hcarries⟩ := ih hcarries hclean
    refine ⟨first ++ rest, ?_, ?_⟩
    · have hlinks : ByteMove.links (move :: moves) =
          ByteMove.links [move] ++ ByteMove.links moves := List.filterMap_append (l := [move])
      rw [hlinks]
      exact hfirst.append hrest
    · rw [ControlLink.run, List.foldl_append]
      exact hcarries

end ByteLink

end VeyraCam
