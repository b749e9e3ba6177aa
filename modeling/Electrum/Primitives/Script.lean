import Electrum.Primitives.Amount

/-!
# Scripts

The predicates of `CScript` that the governance code uses, and the extraction of votes from
`OP_RETURN` outputs.
-/

namespace Electrum

/-- A script is its bytes. -/
abbrev CScript := List UInt8

def OP_PUSHDATA1 : UInt8 := 0x4c
def OP_PUSHDATA2 : UInt8 := 0x4d
def OP_PUSHDATA4 : UInt8 := 0x4e
def OP_IF : UInt8 := 0x63
def OP_ELSE : UInt8 := 0x67
def OP_ENDIF : UInt8 := 0x68
def OP_RETURN : UInt8 := 0x6a
def OP_DROP : UInt8 := 0x75
def OP_DUP : UInt8 := 0x76
def OP_EQUALVERIFY : UInt8 := 0x88
def OP_EQUAL : UInt8 := 0x87
def OP_HASH160 : UInt8 := 0xa9
def OP_CHECKSIG : UInt8 := 0xac
def OP_CFUND : UInt8 := 0xc1
def OP_PROP : UInt8 := 0xc2
def OP_PREQ : UInt8 := 0xc3
def OP_YES : UInt8 := 0xc4
def OP_NO : UInt8 := 0xc5
def OP_COINSTAKE : UInt8 := 0xc6
def OP_ABSTAIN : UInt8 := 0xc7
def OP_REMOVE : UInt8 := 0xc8
def OP_DAO : UInt8 := 0xc9
def OP_ANSWER : UInt8 := 0xca
def OP_CONSULTATION : UInt8 := 0xcb

def MAX_SCRIPT_SIZE : Nat := 10000

/-- `VoteFlags`. -/
def VOTE_YES : Int := 1
def VOTE_NO : Int := 0
def VOTE_ABSTAIN : Int := -1
def VOTE_REMOVE : Int := -2
def SUPPORT : Int := -3
def SUPPORT_REMOVE : Int := -4

/-- The number that bytes in memory order spell, the lowest first. -/
def UInt256.ofBytes (bs : List UInt8) : UInt256 := bs.foldr (fun b n => b.toNat + 256 * n) 0

namespace CScript

/-- The script has exactly `n` bytes, and at each listed position the listed byte. -/
def hasShape (s : CScript) (n : Nat) (bytes : List (Nat × UInt8)) : Bool :=
  s.length == n && bytes.all fun b => s[b.1]? == some b.2

theorem length_of_hasShape {s : CScript} {n : Nat} {bytes : List (Nat × UInt8)}
    (h : s.hasShape n bytes = true) : s.length = n := by
  rw [hasShape, Bool.and_eq_true, beq_iff_eq] at h
  exact h.1

def isUnspendable (s : CScript) : Bool :=
  s.head? == some OP_RETURN || decide (MAX_SCRIPT_SIZE < s.length)

def isColdStaking (s : CScript) : Bool :=
  s.hasShape 54 [(0, OP_COINSTAKE), (1, OP_IF), (2, OP_DUP), (3, OP_HASH160), (4, 0x14),
    (25, OP_EQUALVERIFY), (26, OP_CHECKSIG), (27, OP_ELSE), (28, OP_DUP), (29, OP_HASH160),
    (30, 0x14), (51, OP_EQUALVERIFY), (52, OP_CHECKSIG), (53, OP_ENDIF)]

def isColdStakingv2 (s : CScript) : Bool :=
  s.hasShape 76 [(0, 0x14), (21, OP_DROP), (22, OP_COINSTAKE), (23, OP_IF), (24, OP_DUP),
    (25, OP_HASH160), (26, 0x14), (47, OP_EQUALVERIFY), (48, OP_CHECKSIG), (49, OP_ELSE),
    (50, OP_DUP), (51, OP_HASH160), (52, 0x14), (73, OP_EQUALVERIFY), (74, OP_CHECKSIG),
    (75, OP_ENDIF)]

def isPayToPublicKeyHash (s : CScript) : Bool :=
  s.hasShape 25 [(0, OP_DUP), (1, OP_HASH160), (2, 0x14), (23, OP_EQUALVERIFY), (24, OP_CHECKSIG)]

def isCommunityFundContribution (s : CScript) : Bool :=
  s.hasShape 2 [(0, OP_RETURN), (1, OP_CFUND)]

/-- A fund vote: `OP_RETURN OP_CFUND kind choice` and a 32-byte hash. -/
def isFundVoteOf (kind choice : UInt8) (s : CScript) : Bool :=
  s.hasShape 37 [(0, OP_RETURN), (1, OP_CFUND), (2, kind), (3, choice), (4, 0x20)]

def isProposalVoteYes := isFundVoteOf OP_PROP OP_YES
def isProposalVoteNo := isFundVoteOf OP_PROP OP_NO
def isProposalVoteAbs := isFundVoteOf OP_PROP OP_ABSTAIN
def isProposalVoteRemove := isFundVoteOf OP_PROP OP_REMOVE
def isPaymentRequestVoteYes := isFundVoteOf OP_PREQ OP_YES
def isPaymentRequestVoteNo := isFundVoteOf OP_PREQ OP_NO
def isPaymentRequestVoteAbs := isFundVoteOf OP_PREQ OP_ABSTAIN
def isPaymentRequestVoteRemove := isFundVoteOf OP_PREQ OP_REMOVE

def isProposalVote (s : CScript) : Bool :=
  isProposalVoteYes s || isProposalVoteNo s || isProposalVoteAbs s || isProposalVoteRemove s

def isPaymentRequestVote (s : CScript) : Bool :=
  isPaymentRequestVoteYes s || isPaymentRequestVoteNo s || isPaymentRequestVoteAbs s ||
    isPaymentRequestVoteRemove s

/-- A consultation vote: `OP_RETURN family choice` and a 32-byte hash. -/
def isDaoVoteOf (family choice : UInt8) (s : CScript) : Bool :=
  s.hasShape 36 [(0, OP_RETURN), (1, family), (2, choice), (3, 0x20)]

def isSupportVoteYes := isDaoVoteOf OP_DAO OP_YES
def isSupportVoteRemove := isDaoVoteOf OP_DAO OP_REMOVE
def isConsultationVoteAbstention := isDaoVoteOf OP_CONSULTATION OP_ABSTAIN
def isConsultationVoteRemove := isDaoVoteOf OP_CONSULTATION OP_REMOVE

/-- Unlike the other vote scripts, an answer vote may be followed by a value. -/
def isConsultationVoteAnswer (s : CScript) : Bool :=
  decide (36 ≤ s.length) &&
    s.take 4 == [OP_RETURN, OP_CONSULTATION, OP_ANSWER, 0x20]

def isSupportVote (s : CScript) : Bool := isSupportVoteYes s || isSupportVoteRemove s

def isConsultationVote (s : CScript) : Bool :=
  isConsultationVoteAnswer s || isConsultationVoteAbstention s || isConsultationVoteRemove s

/-- `ExtractVote`. -/
def extractVote (s : CScript) : Option (UInt256 × Int) :=
  if !isPaymentRequestVote s && !isProposalVote s then none
  else
    let choice := s[3]?
    some (UInt256.ofBytes ((s.drop 5).take 32), if choice == some OP_REMOVE then VOTE_REMOVE
      else if choice == some OP_ABSTAIN then VOTE_ABSTAIN
      else if choice == some OP_YES then VOTE_YES else VOTE_NO)

/-- `ExtractSupportVote`. -/
def extractSupportVote (s : CScript) : Option (UInt256 × Int) :=
  if !isSupportVote s then none
  else
    some (UInt256.ofBytes ((s.drop 4).take 32), if s[2]? == some OP_YES then SUPPORT
      else if s[2]? == some OP_REMOVE then SUPPORT_REMOVE else 0)

/-- `CScriptNum::set_vch`: little endian, the top bit of the last byte is the sign. -/
def scriptNumValue (vch : List UInt8) : Int :=
  let result : Nat := vch.foldr (fun b n => b.toNat + 256 * n) 0
  match vch.getLast? with
  | none => 0
  | some b =>
    if 0x80 ≤ b.toNat then -((result - 0x80 * 256 ^ (vch.length - 1) : Nat) : Int) else result

/-- `CScriptNum(vch, false).getint()`; `none` is the exception "script number overflow". -/
def scriptNumInt (vch : List UInt8) : Option Int :=
  if 4 < vch.length then none else some (scriptNumValue vch)

/-- `ExtractConsultationVote`.  The outer `none` is an exception that leaves the function. -/
def extractConsultationVote (s : CScript) : Option (Option (UInt256 × Int)) :=
  if !isConsultationVote s then some none
  else
    let hash := UInt256.ofBytes ((s.drop 4).take 32)
    if s[2]? == some OP_REMOVE then some (some (hash, VOTE_REMOVE))
    else if s[2]? == some OP_ABSTAIN then some (some (hash, VOTE_ABSTAIN))
    else if 36 < s.length then
      if s.length == 37 && s[36]? == some 0x00 then some (some (hash, 0))
      else (scriptNumInt (s.drop 37)).map fun v => some (hash, v)
    else some (some (hash, 1))

/-- `GetStakerScript`, the key under which a staker's votes are kept. -/
def getStakerScript (s : CScript) : List UInt8 :=
  if isColdStakingv2 s then s.take 20
  else if isPayToPublicKeyHash s then (s.drop 2).take 20
  else s

end CScript

end Electrum
