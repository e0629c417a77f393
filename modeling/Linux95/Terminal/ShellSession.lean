import Linux95.Net.Network
import Linux95.Net.DnsMessage
import Linux95.Terminal.TerminalModel

/-! The command line of `terminal/shell_session.cpp`, writing to a terminal. What the callbacks of
the network, the resolver and the executor answer is an argument of each call. -/

namespace Linux95.Terminal
open Net

/-- A terminal with the place where the last prompt ended: the column, and the number of lines begun
since. -/
structure Screen where
  term : TerminalModel
  promptColumn : Nat
  newLines : Nat

namespace Screen

def putChar (s : Screen) (c : Char) : Screen :=
  { s with term := s.term.putChar c
           newLines := if s.term.breaks c then s.newLines + 1 else s.newLines }

def write (s : Screen) (text : List Char) : Screen := text.foldl putChar s

def reversedDigits : Nat → Nat → List Char
  | 0, _ => []
  | room + 1, value =>
    if value = 0 then [] else Char.ofNat ('0'.toNat + value % 10) :: reversedDigits room (value / 10)

def writeUint (s : Screen) (value : Nat) : Screen :=
  if value = 0 then s.putChar '0' else s.write (reversedDigits 32 value).reverse

def writeIpv4 (s : Screen) (address : Ipv4Address) : Screen :=
  (List.finRange 4).foldl (fun s i =>
    (if i ≠ 0 then s.putChar '.' else s).writeUint (address i).toNat) s

def hexDigit (value : Nat) : Char := "0123456789abcdef".toList.getD value '\x00'

def writeMac (s : Screen) (address : MacAddress) : Screen :=
  (List.finRange 6).foldl (fun s i =>
    ((if i ≠ 0 then s.putChar ':' else s).putChar (hexDigit ((address i).toNat / 2 ^ 4))).putChar
      (hexDigit ((address i).toNat % 2 ^ 4))) s

def prompt (s : Screen) : Screen :=
  let s := s.write "linux95> ".toList
  { s with promptColumn := s.term.cursorColumn, newLines := 0 }

/-- The text shown behind the last prompt, wrapped lines joined. -/
def shown (s : Screen) : List Char := (s.term.tail s.newLines).drop s.promptColumn

end Screen

def dnsStatusText : Dns.Status → String
  | .invalidName => "dns: invalid hostname\n"
  | .notFound => "dns: name not found\n"
  | .serverFailure => "dns: server failure\n"
  | .malformedResponse => "dns: malformed response\n"
  | .truncatedResponse => "dns: truncated response (TCP unsupported)\n"
  | .cnameLoopOrLimit => "dns: CNAME loop or limit\n"
  | .timedOut => "dns: timed out\n"
  | .networkUnavailable => "dns: network unavailable\n"
  | .busy => "dns: lookup already in progress\n"
  | .idle => "dns: no result\n"
  | .success | .pending => ""

def wordEquals : List Char → List Char → Bool
  | c :: text, w :: word => c = w && wordEquals text word
  | [], _ :: _ => false
  | [], [] => true
  | c :: _, [] => c = ' '

def commandArgument (command : List Char) : Option (List Char) :=
  match (command.dropWhile (· ≠ ' ')).dropWhile (· = ' ') with
  | [] => none
  | argument => some argument

def isDigit (c : Char) : Bool := '0' ≤ c && c ≤ '9'

/-- The inner loop of `parse_ipv4`. -/
def parseComponent : List Char → Nat → Option (Nat × List Char)
  | [], value => some (value, [])
  | c :: text, value =>
    if isDigit c then
      let digit := c.toNat - '0'.toNat
      if value > 25 ∨ (value = 25 ∧ digit > 5) then none
      else parseComponent text (value * 10 + digit)
    else some (value, c :: text)

def parseComponents : Nat → List Char → Option (List UInt8)
  | 0, _ => some []
  | left + 1, text =>
    if isDigit (text.headD '\x00') then
      match parseComponent text 0 with
      | none => none
      | some (value, rest) =>
        if left = 0 then if rest = [] then some [UInt8.ofNat value] else none
        else
          match rest with
          | '.' :: rest => (parseComponents left rest).map (UInt8.ofNat value :: ·)
          | _ => none
    else none

def parseIpv4 (text : List Char) : Option Ipv4Address :=
  (parseComponents 4 text).map fun bytes i => bytes.getD i.val 0

/-- What the network callbacks answer; `none` for a callback that is missing. -/
structure NetworkAnswers where
  status : Option NetStatus
  startPing : Option (Ipv4Address → Bool)
  pingResult : Option PingResult

/-- What the resolver callbacks answer. `serverAfter` is the server once `set_server` has been
called. -/
structure DnsAnswers where
  beginLookup : Option (List Char → Dns.Status)
  lookupStatus : Option Dns.Status
  resultCount : Option Nat
  resultAddress : Option (Nat → Option Ipv4Address)
  server : Option Ipv4Address
  setServer : Option (Ipv4Address → Dns.Status)
  serverAfter : Ipv4Address → Ipv4Address

inductive CommandAction where
  | continue
  | openEditor
  deriving DecidableEq, Repr

inductive Output where
  | putChar (c : Char)
  | clear
  deriving DecidableEq, Repr

abbrev Executor := List Char → List Output × CommandAction

structure Answers where
  network : NetworkAnswers
  dns : DnsAnswers
  execute : Option Executor

def TerminalModel.output (t : TerminalModel) : Output → TerminalModel
  | .putChar c => t.putChar c
  | .clear => t.clear

def Screen.output (s : Screen) : Output → Screen
  | .putChar c => s.putChar c
  | .clear => { s with term := s.term.clear }

def commandCapacity : Nat := 260

/-- `command` is the string in `command_[0 .. length_]`. -/
structure ShellSession where
  screen : Screen
  dnsPending : Bool
  command : List Char

namespace ShellSession

def write (s : ShellSession) (text : String) : ShellSession :=
  { s with screen := s.screen.write text.toList }

def writeIpv4 (s : ShellSession) (address : Ipv4Address) : ShellSession :=
  { s with screen := s.screen.writeIpv4 address }

def writeUint (s : ShellSession) (value : Nat) : ShellSession :=
  { s with screen := s.screen.writeUint value }

def prompt (s : ShellSession) : ShellSession := { s with screen := s.screen.prompt }

def begin (s : ShellSession) : ShellSession :=
  { s with dnsPending := false, command := [] }.prompt

def trimmed (s : ShellSession) : List Char := s.command.dropWhile (· = ' ')

def executeIp (net : NetworkAnswers) (s : ShellSession) : ShellSession :=
  match net.status with
  | none => s.write "interface: offline\n"
  | some status =>
    if status.online then
      let s := s.write "interface: rtl8139\nmac: "
      let s := { s with screen := s.screen.writeMac status.mac }
      let s := (s.write "\nip: ").writeIpv4 status.ip
      let s := (s.write "\nnetmask: ").writeIpv4 status.netmask
      let s := (s.write "\ngateway: ").writeIpv4 status.gateway
      s.write "\nlink: up\n"
    else s.write "interface: offline\n"

def executePing (net : NetworkAnswers) (s : ShellSession) : ShellSession :=
  match (commandArgument s.trimmed).bind parseIpv4 with
  | none => s.write "usage: ping <IPv4 address>\n"
  | some destination =>
    if (net.status.map NetStatus.online).getD false then
      if (net.startPing.map fun start => start destination).getD false then
        ((s.write "PING ").writeIpv4 destination).write "\n"
      else s
    else s.write "ping: network unavailable\n"

/-- The answer says whether the command was one of the network's. -/
def executeNetworkCommand (net : NetworkAnswers) (s : ShellSession) : Bool × ShellSession :=
  if wordEquals s.trimmed "ip".toList then (true, s.executeIp net)
  else if wordEquals s.trimmed "ping".toList then (true, s.executePing net)
  else (false, s)

def executeDnsServer (dns : DnsAnswers) (s : ShellSession) : ShellSession :=
  match dns.server with
  | none => s.write "dnsserver: unavailable\n"
  | some server =>
    match commandArgument s.trimmed with
    | none => ((s.write "dns server: ").writeIpv4 server).write "\n"
    | some argument =>
      match parseIpv4 argument with
      | none =>
        ((((s.write "usage: dnsserver [IPv4 address]\n").write "dns server: ").writeIpv4
          server).write "\n")
      | some address =>
        match dns.setServer with
        | none =>
          ((((s.write "dnsserver: unavailable\n").write "dns server: ").writeIpv4 server).write "\n")
        | some setServer =>
          let s := if setServer address = .busy then s.write "dnsserver: lookup in progress\n" else s
          ((s.write "dns server: ").writeIpv4 (dns.serverAfter address)).write "\n"

def executeLookup (dns : DnsAnswers) (s : ShellSession) : ShellSession :=
  match commandArgument s.trimmed with
  | none => s.write "usage: dns <hostname>\n"
  | some argument =>
    if argument.any (· = ' ') then s.write "usage: dns <hostname>\n"
    else
      match dns.beginLookup with
      | none => s.write (dnsStatusText .networkUnavailable)
      | some beginLookup =>
        let status := beginLookup argument
        if status = .pending then { s with dnsPending := true } else s.write (dnsStatusText status)

def executeDnsCommand (dns : DnsAnswers) (s : ShellSession) : Bool × ShellSession :=
  if wordEquals s.trimmed "dnsserver".toList then (true, s.executeDnsServer dns)
  else if wordEquals s.trimmed "dns".toList then (true, s.executeLookup dns)
  else (false, s)

def execute (answers : Answers) (s : ShellSession) : CommandAction × ShellSession :=
  match s.executeNetworkCommand answers.network with
  | (true, s) => (.continue, s)
  | (false, s) =>
    match s.executeDnsCommand answers.dns with
    | (true, s) => (.continue, s)
    | (false, s) =>
      match answers.execute with
      | none => (.continue, s)
      | some executor =>
        let result := executor s.command
        (result.2, { s with screen := result.1.foldl Screen.output s.screen })

def finish (result : CommandAction × ShellSession) : CommandAction × ShellSession :=
  let s := { result.2 with command := [] }
  if s.dnsPending = false ∧ result.1 ≠ .openEditor then (result.1, s.prompt) else (result.1, s)

def onChar (answers : Answers) (c : Char) (s : ShellSession) : CommandAction × ShellSession :=
  if s.dnsPending then (.continue, s)
  else if c = '\n' then finish ({ s with screen := s.screen.putChar '\n' }.execute answers)
  else if c = '\x08' then
    if s.command.length = 0 then (.continue, s)
    else
      (.continue,
        { s with command := s.command.dropLast, screen := s.screen.putChar '\x08' })
  else if c.toNat < 32 ∨ c.toNat > 126 then (.continue, s)
  else if s.command.length + 1 ≥ commandCapacity then (.continue, s)
  else (.continue, { s with command := s.command ++ [c], screen := s.screen.putChar c })

def resumePrompt (s : ShellSession) : ShellSession := if s.dnsPending then s else s.prompt

def finished (state : PingState) : Bool :=
  state = .replyReceived || state = .hostUnreachable || state = .timedOut

def writePing (result : PingResult) (s : ShellSession) : ShellSession :=
  let s := s.write "\n"
  if result.state = .replyReceived then
    let s := (s.writeUint result.payloadBytes).write " bytes from "
    let s := (s.writeIpv4 result.address).write ": icmp_seq="
    (s.writeUint result.sequence).write "\n"
  else if result.state = .hostUnreachable then s.write "ping: host unreachable\n"
  else ((s.write "Request timeout for ").writeIpv4 result.address).write "\n"

def pollPing (net : NetworkAnswers) (s : ShellSession) : Bool × ShellSession :=
  match net.pingResult with
  | none => (false, s)
  | some result =>
    if finished result.state then
      let s := s.writePing result
      (true, if s.dnsPending then s else s.prompt)
    else (false, s)

def writeAddresses (dns : DnsAnswers) (s : ShellSession) : ShellSession :=
  (List.range (min (dns.resultCount.getD 0) 8)).foldl (fun s index =>
    match dns.resultAddress.bind (· index) with
    | none => s
    | some address => ((s.write "dns: ").writeIpv4 address).write "\n") s

def pollDns (dns : DnsAnswers) (s : ShellSession) : Bool × ShellSession :=
  if s.dnsPending then
    match dns.lookupStatus with
    | none => (false, s)
    | some status =>
      if status = .pending then (false, s)
      else
        let s := if status = .success then s.writeAddresses dns else s.write (dnsStatusText status)
        (true, { s with dnsPending := false }.prompt)
  else (false, s)

def poll (answers : Answers) (s : ShellSession) : Bool × ShellSession :=
  let (pingChanged, s) := s.pollPing answers.network
  let (dnsChanged, s) := s.pollDns answers.dns
  (pingChanged || dnsChanged, s)

end ShellSession

end Linux95.Terminal
