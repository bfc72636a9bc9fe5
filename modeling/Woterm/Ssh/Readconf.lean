import Woterm.Ssh.Strdelim
import Woterm.Utils

/-!
The `ssh` client's reader of the session file: `read_config_file_depth` and
`process_config_line_depth` of the patched `readconf.c`, built without GSSAPI and PKCS11.

The directives that store a string, `Host`, `Port` and the ignored ones are modelled in full.
What the other directives do to the options is a parameter, and so is the service database
behind `a2port`. `fatal` ends the program; it is an error that carries the line number.
-/

namespace Woterm.Ssh.Readconf
open Woterm.Lib Woterm.Qt Woterm.Ssh.Strdelim

inductive OpCodes where
  | oBadOption | oHost | oMatch | oInclude | oForwardAgent | oForwardX11 | oForwardX11Trusted
  | oForwardX11Timeout | oGatewayPorts | oExitOnForwardFailure | oPasswordAuthentication
  | oRSAAuthentication | oChallengeResponseAuthentication | oXAuthLocation | oIdentityFile
  | oHostName | oPort | oCipher | oRemoteForward | oLocalForward | oCertificateFile
  | oAddKeysToAgent | oIdentityAgent | oUser | oEscapeChar | oRhostsRSAAuthentication
  | oProxyCommand | oGlobalKnownHostsFile | oUserKnownHostsFile | oConnectionAttempts | oBatchMode
  | oCheckHostIP | oStrictHostKeyChecking | oCompression | oCompressionLevel | oTCPKeepAlive
  | oNumberOfPasswordPrompts | oUsePrivilegedPort | oLogFacility | oLogLevel | oCiphers | oMacs
  | oPubkeyAuthentication | oKbdInteractiveAuthentication | oKbdInteractiveDevices | oHostKeyAlias
  | oDynamicForward | oPreferredAuthentications | oHostbasedAuthentication | oHostKeyAlgorithms
  | oBindAddress | oBindInterface | oPKCS11Provider | oClearAllForwardings
  | oNoHostAuthenticationForLocalhost | oEnableSSHKeysign | oRekeyLimit | oVerifyHostKeyDNS
  | oConnectTimeout | oAddressFamily | oGssAuthentication | oGssDelegateCreds
  | oServerAliveInterval | oServerAliveCountMax | oIdentitiesOnly | oSendEnv | oSetEnv
  | oControlPath | oControlMaster | oControlPersist | oHashKnownHosts | oTunnel | oTunnelDevice
  | oLocalCommand | oPermitLocalCommand | oRemoteCommand | oVisualHostKey | oKexAlgorithms | oIPQoS
  | oRequestTTY | oIgnoreUnknown | oProxyUseFdpass | oCanonicalDomains | oCanonicalizeHostname
  | oCanonicalizeMaxDots | oCanonicalizeFallbackLocal | oCanonicalizePermittedCNAMEs
  | oStreamLocalBindMask | oStreamLocalBindUnlink | oRevokedHostKeys | oFingerprintHash
  | oUpdateHostkeys | oHostbasedKeyTypes | oPubkeyAcceptedKeyTypes | oCASignatureAlgorithms
  | oProxyJump | oIgnore | oIgnoredUnknownOption | oDeprecated | oUnsupported | oPassword
deriving DecidableEq, Repr

/-- The table `keywords`. -/
def keywords : List (String × OpCodes) := [
  ("protocol", .oIgnore), ("cipher", .oDeprecated), ("fallbacktorsh", .oDeprecated),
  ("globalknownhostsfile2", .oDeprecated), ("rhostsauthentication", .oDeprecated),
  ("userknownhostsfile2", .oDeprecated), ("useroaming", .oDeprecated), ("usersh", .oDeprecated),
  ("useprivilegedport", .oDeprecated), ("afstokenpassing", .oUnsupported),
  ("kerberosauthentication", .oUnsupported), ("kerberostgtpassing", .oUnsupported),
  ("gssapiauthentication", .oUnsupported), ("gssapidelegatecredentials", .oUnsupported),
  ("smartcarddevice", .oUnsupported), ("pkcs11provider", .oUnsupported),
  ("rsaauthentication", .oUnsupported), ("rhostsrsaauthentication", .oUnsupported),
  ("compressionlevel", .oUnsupported), ("forwardagent", .oForwardAgent), ("forwardx11", .oForwardX11),
  ("forwardx11trusted", .oForwardX11Trusted), ("forwardx11timeout", .oForwardX11Timeout),
  ("exitonforwardfailure", .oExitOnForwardFailure), ("xauthlocation", .oXAuthLocation),
  ("gatewayports", .oGatewayPorts), ("passwordauthentication", .oPasswordAuthentication),
  ("kbdinteractiveauthentication", .oKbdInteractiveAuthentication),
  ("kbdinteractivedevices", .oKbdInteractiveDevices), ("pubkeyauthentication", .oPubkeyAuthentication),
  ("dsaauthentication", .oPubkeyAuthentication),
  ("hostbasedauthentication", .oHostbasedAuthentication),
  ("challengeresponseauthentication", .oChallengeResponseAuthentication),
  ("skeyauthentication", .oUnsupported), ("tisauthentication", .oChallengeResponseAuthentication),
  ("identityfile", .oIdentityFile), ("identityfile2", .oIdentityFile),
  ("identitiesonly", .oIdentitiesOnly), ("certificatefile", .oCertificateFile),
  ("addkeystoagent", .oAddKeysToAgent), ("identityagent", .oIdentityAgent), ("hostname", .oHostName),
  ("hostkeyalias", .oHostKeyAlias), ("proxycommand", .oProxyCommand), ("port", .oPort),
  ("ciphers", .oCiphers), ("macs", .oMacs), ("remoteforward", .oRemoteForward),
  ("localforward", .oLocalForward), ("user", .oUser), ("host", .oHost), ("match", .oMatch),
  ("escapechar", .oEscapeChar), ("globalknownhostsfile", .oGlobalKnownHostsFile),
  ("userknownhostsfile", .oUserKnownHostsFile), ("connectionattempts", .oConnectionAttempts),
  ("batchmode", .oBatchMode), ("checkhostip", .oCheckHostIP),
  ("stricthostkeychecking", .oStrictHostKeyChecking), ("compression", .oCompression),
  ("tcpkeepalive", .oTCPKeepAlive), ("keepalive", .oTCPKeepAlive),
  ("numberofpasswordprompts", .oNumberOfPasswordPrompts), ("syslogfacility", .oLogFacility),
  ("loglevel", .oLogLevel), ("dynamicforward", .oDynamicForward),
  ("preferredauthentications", .oPreferredAuthentications), ("hostkeyalgorithms", .oHostKeyAlgorithms),
  ("casignaturealgorithms", .oCASignatureAlgorithms), ("bindaddress", .oBindAddress),
  ("bindinterface", .oBindInterface), ("clearallforwardings", .oClearAllForwardings),
  ("enablesshkeysign", .oEnableSSHKeysign), ("verifyhostkeydns", .oVerifyHostKeyDNS),
  ("nohostauthenticationforlocalhost", .oNoHostAuthenticationForLocalhost),
  ("rekeylimit", .oRekeyLimit), ("connecttimeout", .oConnectTimeout),
  ("addressfamily", .oAddressFamily), ("serveraliveinterval", .oServerAliveInterval),
  ("serveralivecountmax", .oServerAliveCountMax), ("sendenv", .oSendEnv), ("setenv", .oSetEnv),
  ("controlpath", .oControlPath), ("controlmaster", .oControlMaster),
  ("controlpersist", .oControlPersist), ("hashknownhosts", .oHashKnownHosts), ("include", .oInclude),
  ("tunnel", .oTunnel), ("tunneldevice", .oTunnelDevice), ("localcommand", .oLocalCommand),
  ("permitlocalcommand", .oPermitLocalCommand), ("remotecommand", .oRemoteCommand),
  ("visualhostkey", .oVisualHostKey), ("kexalgorithms", .oKexAlgorithms), ("ipqos", .oIPQoS),
  ("requesttty", .oRequestTTY), ("proxyusefdpass", .oProxyUseFdpass),
  ("canonicaldomains", .oCanonicalDomains), ("canonicalizefallbacklocal", .oCanonicalizeFallbackLocal),
  ("canonicalizehostname", .oCanonicalizeHostname), ("canonicalizemaxdots", .oCanonicalizeMaxDots),
  ("canonicalizepermittedcnames", .oCanonicalizePermittedCNAMEs),
  ("streamlocalbindmask", .oStreamLocalBindMask), ("streamlocalbindunlink", .oStreamLocalBindUnlink),
  ("revokedhostkeys", .oRevokedHostKeys), ("fingerprinthash", .oFingerprintHash),
  ("updatehostkeys", .oUpdateHostkeys), ("hostbasedkeytypes", .oHostbasedKeyTypes),
  ("pubkeyacceptedkeytypes", .oPubkeyAcceptedKeyTypes), ("ignoreunknown", .oIgnoreUnknown),
  ("proxyjump", .oProxyJump), ("password", .oPassword)]

/-- The options behind the label `parse_string`. -/
inductive StrOption where
  | kbdInteractiveDevices | xauthLocation | user | hostname | hostKeyAlias | preferredAuthentications
  | bindAddress | bindInterface | pkcs11Provider | password | controlPath | ignoredUnknown | revokedHostKeys
deriving DecidableEq, Repr

def strOption : OpCodes → Option StrOption
  | .oKbdInteractiveDevices => some .kbdInteractiveDevices
  | .oXAuthLocation => some .xauthLocation
  | .oUser => some .user
  | .oHostName => some .hostname
  | .oHostKeyAlias => some .hostKeyAlias
  | .oPreferredAuthentications => some .preferredAuthentications
  | .oBindAddress => some .bindAddress
  | .oBindInterface => some .bindInterface
  | .oPKCS11Provider => some .pkcs11Provider
  | .oPassword => some .password
  | .oControlPath => some .controlPath
  | .oIgnoreUnknown => some .ignoredUnknown
  | .oRevokedHostKeys => some .revokedHostKeys
  | _ => none

/-- The modelled part of `Options`, as `initialize_options` leaves it. -/
@[ext] structure Options where
  str : StrOption → Option CStr := fun _ => none
  port : Int := -1

@[ext] structure State where
  options : Options := {}
  active : Bool := true

inductive Reason where
  | missingArgument
  | badPort (arg : CStr)
  | garbage (arg : CStr)
  | badOptions (count : Nat)
  | other (message : String)
deriving DecidableEq, Repr

structure Fatal where
  linenum : Nat
  reason : Reason
deriving DecidableEq, Repr

structure Env where
  /-- The flag `SSHCONF_NEVERMATCH`. -/
  neverMatch : Bool
  /-- `getservbyname` for `tcp`. -/
  services : CStr → Option Nat
  /-- The directives that are not modelled: the new state, and whether the line counts as bad. -/
  other : Nat → OpCodes → Option CStr → State → Except Fatal (State × Bool)

def keywordBytes (name : String) : CStr := QString.toUtf8 name.toList

def parseToken (cp : CStr) (ignoredUnknown : Option CStr) : OpCodes :=
  match keywords.find? fun keyword => keywordBytes keyword.1 = cp with
  | some keyword => keyword.2
  | none =>
    match ignoredUnknown with
    | some patterns => if matchPatternList cp patterns true = 1 then .oIgnoredUnknownOption else .oBadOption
    | none => .oBadOption

/-- `isspace` in the C locale. -/
def isSpace (byte : UInt8) : Bool := byte = 32 || (9 ≤ byte && byte ≤ 13)

def isDigit (byte : UInt8) : Bool := 48 ≤ byte && byte ≤ 57

/-- The decimal number that `strtoll` reads, when it reads the whole of the text. -/
def strtoll (text : CStr) : Option Int :=
  let body := text.dropWhile isSpace
  let negative := body.head? = some 45
  let digits := if negative ∨ body.head? = some 43 then body.drop 1 else body
  if digits.isEmpty || !digits.all isDigit then none
  else
    let value := Nat.ofDigitChars 10 (digits.map fun byte => Char.ofNat byte.toNat) 0
    some (if negative then -value else value)

def a2port (env : Env) (s : CStr) : Int :=
  match (strtoll s).filter fun port => 0 ≤ port ∧ port ≤ 65535 with
  | some port => port
  | none => match env.services s with
    | some port => port
    | none => -1

/-- Trailing blanks are cut off, but never the first byte of the line. -/
def stripEnd : CStr → CStr
  | [] => []
  | byte :: rest => byte :: rest.rdropWhile fun other => isWhite other || other = 12

/-- The lowercase keyword of a line and the rest after it; nothing for a line to skip. -/
def keywordOf (line : CStr) : Option (CStr × Option CStr) :=
  let first := strdelim (some (stripEnd line))
  let found := if first.1 = some [] then strdelim first.2 else first
  match found.1 with
  | none => none
  | some keyword =>
    if keyword.isEmpty || keyword.head? = some 10 || keyword.head? = some 35 then none
    else some (keyword.map toLower, found.2)

/-- The next argument of a directive that must have one. -/
def argument (linenum : Nat) (s : Option CStr) : Except Fatal (CStr × Option CStr) :=
  match strdelim s with
  | (some (byte :: arg), rest) => .ok (byte :: arg, rest)
  | _ => .error ⟨linenum, .missingArgument⟩

/-- The check for garbage at the end of the line. -/
def finish (linenum : Nat) (state : State) (s : Option CStr) : Except Fatal (State × Bool) :=
  match (strdelim s).1 with
  | some (byte :: arg) => .error ⟨linenum, .garbage (byte :: arg)⟩
  | _ => .ok (state, false)

/-- The first value of an option wins, and only active blocks have values. -/
def setString (state : State) (option : StrOption) (arg : CStr) : State :=
  if state.active ∧ state.options.str option = none then
    { state with options := { state.options with str := Function.update state.options.str option (some arg) } }
  else state

def setPort (state : State) (value : Int) : State :=
  if state.active ∧ state.options.port = -1 then
    { state with options := { state.options with port := value } }
  else state

/-- The loop of `Host` over its patterns. A round uses up at least one byte, so `fuel` beyond
the length of the line is never used up. -/
def hostLoop (env : Env) (host : CStr) : Nat → Option CStr → Bool → Bool
  | 0, _, active => active
  | fuel + 1, s, active =>
    match strdelim s with
    | (some (byte :: arg), rest) =>
      if env.neverMatch then active
      else
        let negated := byte = 33
        let pattern := if negated then arg else byte :: arg
        if matchPattern host pattern then
          if negated then false else hostLoop env host fuel rest true
        else hostLoop env host fuel rest active
    | _ => active

def hostActive (env : Env) (host : CStr) (s : Option CStr) : Bool :=
  hostLoop env host ((s.getD []).length + 1) s false

def processLine (env : Env) (host : CStr) (linenum : Nat) (line : CStr) (state : State) :
    Except Fatal (State × Bool) :=
  match keywordOf line with
  | none => .ok (state, false)
  | some (keyword, s) =>
    let opcode := parseToken keyword (state.options.str .ignoredUnknown)
    match strOption opcode with
    | some option => do
      let (arg, s) ← argument linenum s
      finish linenum (setString state option arg) s
    | none =>
      match opcode with
      | .oBadOption | .oIgnore | .oIgnoredUnknownOption | .oDeprecated | .oUnsupported => .ok (state, false)
      | .oHost => .ok ({ state with active := hostActive env host s }, false)
      | .oPort => do
        let (arg, s) ← argument linenum s
        let value := a2port env arg
        if value ≤ 0 then .error ⟨linenum, .badPort arg⟩ else finish linenum (setPort state value) s
      | _ => env.other linenum opcode s state

/-- The pieces the loop over the buffer cuts it into; a final newline starts no new one. -/
def fileLines : List UInt8 → List (List UInt8)
  | [] => []
  | byte :: rest =>
    if byte = 10 then [] :: fileLines rest
    else match fileLines rest with
      | [] => [[byte]]
      | line :: lines => (byte :: line) :: lines

/-- The buffer after the flag has been looked for and the rest decrypted. -/
def configBytes (buffer : QByteArray) : List UInt8 :=
  if Utils.wotermFlag.isPrefixOf buffer then Utils.rc4Crypt (Utils.rc4Init Utils.wotermKey) (buffer.drop 7)
  else buffer

def readLoop (env : Env) (host : CStr) : Nat → List (List UInt8) → State → Nat → Except Fatal State
  | linenum, [], state, badOptions =>
    if 0 < badOptions then .error ⟨linenum, .badOptions badOptions⟩ else .ok state
  | linenum, line :: lines, state, badOptions => do
    let (state, bad) ← processLine env host (linenum + 1) (CString.cstr line) state
    readLoop env host (linenum + 1) lines state (if bad then badOptions + 1 else badOptions)

/-- `read_config_file_depth` at depth 0 on a file that can be read. -/
def readConfigFileDepth (env : Env) (host : CStr) (file : QByteArray) (state : State) : Except Fatal State :=
  readLoop env host 0 (fileLines (configBytes file)) state 0

/-! ## Lines -/

theorem fileLines_append (line : List UInt8) (clean : (10 : UInt8) ∉ line) (more : List UInt8) :
    fileLines (line ++ 10 :: more) = line :: fileLines more := by
  induction line with
  | nil => rfl
  | cons byte line ih =>
    have other : byte ≠ 10 := fun same => clean (by simp [same])
    have rest := ih fun member => clean (by simp [member])
    simp only [List.cons_append, fileLines, if_neg other, rest]

theorem fileLines_single (line : List UInt8) (clean : (10 : UInt8) ∉ line) (nonempty : line ≠ []) :
    fileLines line = [line] := by
  induction line with
  | nil => exact absurd rfl nonempty
  | cons byte line ih =>
    have other : byte ≠ 10 := fun same => clean (by simp [same])
    rw [fileLines, if_neg other]
    cases line with
    | nil => rfl
    | cons next line => rw [ih (fun member => clean (by simp [member])) (List.cons_ne_nil _ _)]

theorem line_cases (file : List UInt8) :
    file = [] ∨ (file ≠ [] ∧ (10 : UInt8) ∉ file) ∨ ∃ line more, (10 : UInt8) ∉ line ∧ file = line ++ 10 :: more := by
  by_cases inside : (10 : UInt8) ∈ file
  · obtain ⟨line, more, same, clean⟩ := List.eq_append_cons_of_mem inside
    exact .inr (.inr ⟨line, more, clean, same⟩)
  · by_cases empty : file = []
    · exact .inl empty
    · exact .inr (.inl ⟨empty, inside⟩)

/-! ## Ports -/

theorem isDigit_iff (byte : UInt8) : isDigit byte = true ↔ 48 ≤ byte.toNat ∧ byte.toNat ≤ 57 := by
  simp [isDigit, UInt8.le_iff_toNat_le]

theorem strtoll_of_digits (first : UInt8) (rest : CStr)
    (digits : ∀ byte ∈ first :: rest, isDigit byte = true) :
    strtoll (first :: rest) =
      some (Nat.ofDigitChars 10 ((first :: rest).map fun byte => Char.ofNat byte.toNat) 0 : Int) := by
  have range := (isDigit_iff first).mp (digits first (by simp))
  have solid : isSpace first = false := by
    simp only [isSpace, Bool.or_eq_false_iff, decide_eq_false_iff_not, Bool.and_eq_false_iff,
      UInt8.le_iff_toNat_le, ← UInt8.toNat_inj]
    simp only [UInt8.reduceToNat]
    omega
  have unsigned : first ≠ 45 ∧ first ≠ 43 := by
    simp only [ne_eq, ← UInt8.toNat_inj, UInt8.reduceToNat]
    omega
  have body : (first :: rest).dropWhile isSpace = first :: rest := by
    rw [List.dropWhile_cons_of_neg (by simp [solid])]
  have all : (first :: rest).all isDigit = true := List.all_eq_true.mpr digits
  simp only [strtoll, body, List.head?_cons, Option.some.injEq, unsigned.1, unsigned.2, or_self, if_false]
  rw [all]
  simp

theorem strtoll_toDigits (n : Nat) : strtoll (QString.toUtf8 (Nat.toDigits 10 n)) = some (n : Int) := by
  have digits (byte : UInt8) (member : byte ∈ (Nat.toDigits 10 n).map Char.toUInt8) :
      isDigit byte = true := by
    obtain ⟨c, inside, rfl⟩ := List.mem_map.mp member
    obtain ⟨lower, upper, _⟩ := digit_bytes n c inside
    exact (isDigit_iff c.toUInt8).mpr ⟨lower, upper⟩
  have back : ((Nat.toDigits 10 n).map Char.toUInt8).map (fun byte => Char.ofNat byte.toNat) =
      Nat.toDigits 10 n := by
    rw [List.map_map]
    nth_rewrite 2 [← List.map_id (Nat.toDigits 10 n)]
    apply List.map_congr_left
    intro c member
    simp [(digit_bytes n c member).2.2]
  have encoded := toUtf8_toDigits n
  obtain ⟨first, rest, split⟩ := List.exists_cons_of_ne_nil
    (show (Nat.toDigits 10 n).map Char.toUInt8 ≠ [] by simp [Nat.toDigits_ne_nil])
  rw [split] at digits back encoded
  rw [encoded, strtoll_of_digits first rest digits, back, Nat.ofDigitChars_ten_toDigits]

theorem a2port_number (env : Env) (port : Int32) (range : 0 ≤ port.toInt ∧ port.toInt ≤ 65535) :
    a2port env (QString.toUtf8 (QString.number port)) = port.toInt := by
  have whole : QString.number port = Nat.toDigits 10 port.toInt.natAbs := by
    rw [QString.number, if_neg (by omega)]
  have value : ((port.toInt.natAbs : Nat) : Int) = port.toInt := by omega
  have kept : (some port.toInt).filter (fun port => 0 ≤ port ∧ port ≤ 65535) = some port.toInt := by
    simp [Option.filter, range]
  rw [a2port, whole, strtoll_toDigits, value, kept]

end Woterm.Ssh.Readconf
