import Six.Selinux.Baseline

/-! The loader of policy texts, `selinux_parse_and_load_policy`.  Which tokens belong to a statement
depends on nothing but the tokens, so that the text is first cut into tokens and statements here,
and the statements are then executed in their order.  A test of `*p` in the source differs from a
test for another token only where blanks or a comment follow the last token, and there `next_token`
returns the empty token, which ends every loop. -/

namespace Six.Selinux

open Errno

def isBlank (c : Char) : Bool := c = ' ' || c = '\t' || c = '\r' || c = '\n'

def isPunct (c : Char) : Bool :=
  c = '\x7b' || c = '\x7d' || c = '(' || c = ')' || c = ':' || c = ';' || c = ','

def flush (cur : List Char) (toks : List String) : List String :=
  if cur = [] then toks else String.ofList cur.reverse :: toks

/-- The tokens of a text.  A comment starts where a token could start. -/
def tokensFrom (cur : List Char) (inComment : Bool) : List Char → List String
  | [] => flush cur []
  | c :: cs =>
    if inComment then tokensFrom [] (c ≠ '\n') cs
    else if isBlank c then flush cur (tokensFrom [] false cs)
    else if isPunct c then flush cur (String.singleton c :: tokensFrom [] false cs)
    else if c = '#' ∧ cur = [] then tokensFrom [] true cs
    else tokensFrom (c :: cur) false cs

def tokens (text : List Char) : List String := tokensFrom [] false (text.takeWhile (· ≠ '\x00'))

def cut (n : Nat) (s : String) : String := String.ofList (s.toList.take n)

def nextToken (n : Nat) : List String → String × List String
  | [] => ("", [])
  | t :: ts => (cut n t, ts)

/-- The next token, without a token that may stand before it. -/
def nextAfter (n : Nat) (skip : String) (toks : List String) : String × List String :=
  let (t, rest) := nextToken n toks
  if t = skip then nextToken n rest else (t, rest)

def tokensUntil (stop : String) : List String → List String × List String
  | [] => ([], [])
  | t :: ts =>
    if cut 63 t = stop then ([], ts)
    else
      let (inner, rest) := tokensUntil stop ts
      (cut 63 t :: inner, rest)

def nameList (toks : List String) : List String × List String :=
  let (t, rest) := nextToken 63 toks
  if t = "\x7b" then tokensUntil "\x7d" rest else ([t], rest)

/-- The names of a set of types; `none` at the end of the text. -/
abbrev SidExpr := Option (List String)

inductive Statement
  | tier (name : String)
  | reset
  | type (name : String) (attrs : List String)
  | typeattribute (name : String) (attrs : List String)
  | transition (isMacro : Bool) (sname tname dname : String)
  | initDaemonDomain (dname : String)
  /-- a macro or statement that is passed over, with the names in it -/
  | skipped (names : List String)
  | rule (isNever : Bool) (src tgt : SidExpr) (classes perms : List String)
  | xpermRule (isNever : Bool) (src tgt : SidExpr) (tclass : String) (ranges : List String)
  deriving DecidableEq

def sidExpr : List String → SidExpr × List String
  | [] => (none, [])
  | toks =>
    let (names, rest) := nameList toks
    (some names, rest)

def isCloser (t : String) : Bool := t = ")" || t = ";"

def attrStatement (make : String → List String → Statement) (toks : List String) :
    Statement × List String :=
  let (name, rest) := nextToken 31 toks
  let (attrs, rest) := tokensUntil ";" rest
  (make name (attrs.filter (· ≠ ",")), rest)

def transitionStatement (isMacro : Bool) (toks : List String) : Statement × List String :=
  let (sname, rest) := nextAfter 31 "(" toks
  let (tname, rest) := nextAfter 31 "," rest
  let rest := if isMacro then rest else (nextAfter 63 ":" rest).2
  let (dname, rest) := nextAfter 31 "," rest
  (.transition isMacro sname tname dname, rest.dropWhile isCloser)

def initDaemonStatement (toks : List String) : Statement × List String :=
  let (dname, rest) := nextAfter 31 "(" toks
  (.initDaemonDomain dname, rest.dropWhile isCloser)

def ruleStatement (isNever : Bool) (toks : List String) : Statement × List String :=
  let (src, rest) := sidExpr toks
  let (tgt, rest) := sidExpr rest
  let (t, afterColon) := nextToken 63 rest
  let (classes, rest) := nameList (if t = ":" then afterColon else rest)
  let (perms, rest) := nameList rest
  (.rule isNever src tgt classes perms, (nextToken 63 rest).2)

def xpermStatement (isNever : Bool) (toks : List String) : Statement × List String :=
  let (src, rest) := sidExpr toks
  let (tgt, rest) := sidExpr rest
  let (tclass, rest) := nextAfter 63 ":" rest
  let (_, rest) := nextToken 63 rest
  let (ranges, rest) := nameList rest
  (.xpermRule isNever src tgt tclass ranges, (nextToken 63 rest).2)

def statement (tok : String) (toks : List String) : Statement × List String :=
  if tok = "@tier" then
    let (name, rest) := nextToken 63 toks
    (.tier name, rest)
  else if tok = "@reset" then (.reset, toks)
  else if tok = "type" then attrStatement .type toks
  else if tok = "typeattribute" then attrStatement .typeattribute toks
  else if tok = "type_transition" then transitionStatement false toks
  else if tok = "domain_auto_trans" then transitionStatement true toks
  else if tok = "init_daemon_domain" then initDaemonStatement toks
  else if tok = "binder_use" ∨ tok = "binder_call" ∨ tok = "add_service" then
    let (inner, rest) := tokensUntil ")" toks
    (.skipped (inner.filter fun t => t ≠ "(" ∧ t ≠ ","), rest.dropWhile (· = ";"))
  else if tok = "allow" then ruleStatement false toks
  else if tok = "neverallow" then ruleStatement true toks
  else if tok = "allowxperm" then xpermStatement false toks
  else if tok = "neverallowxperm" then xpermStatement true toks
  else if tok = ";" then (.skipped [], toks)
  else
    let (inner, rest) := tokensUntil ";" toks
    (.skipped inner, rest)

/-- Every statement takes a token, so that `fuel` tokens are at most `fuel` statements. -/
def statementsFrom : Nat → List String → List Statement
  | 0, _ => []
  | _ + 1, [] => []
  | fuel + 1, t :: ts =>
    let (s, rest) := statement (cut 63 t) ts
    s :: statementsFrom fuel rest

def statements (text : List Char) : List Statement :=
  statementsFrom (tokens text).length (tokens text)

def digitValue (c : Char) : Option Nat :=
  if '0' ≤ c ∧ c ≤ '9' then some (c.toNat - '0'.toNat)
  else if 'a' ≤ c ∧ c ≤ 'f' then some (c.toNat - 'a'.toNat + 10)
  else if 'A' ≤ c ∧ c ≤ 'F' then some (c.toNat - 'A'.toNat + 10)
  else none

def digits (base : UInt32) (result : UInt32) : List Char → UInt32 × List Char
  | [] => (result, [])
  | c :: cs =>
    match digitValue c with
    | some v =>
      if UInt32.ofNat v < base then digits base (result * base + UInt32.ofNat v) cs
      else (result, c :: cs)
    | none => (result, c :: cs)

/-- `simple_strtoul` for base 0, with the rest of the text. -/
def simpleStrtoul : List Char → UInt32 × List Char
  | '0' :: 'x' :: c :: cs =>
    if (digitValue c).isSome then digits 16 0 (c :: cs) else digits 8 0 ('x' :: c :: cs)
  | '0' :: cs => digits 8 0 cs
  | cs => digits 10 0 cs

def xpermRange (tok : String) : UInt16 × UInt16 :=
  let (lo, rest) := simpleStrtoul tok.toList
  let hi :=
    match rest with
    | '-' :: cs => (simpleStrtoul cs).1
    | '.' :: '.' :: cs => (simpleStrtoul cs).1
    | _ => lo
  (lo.toUInt16, hi.toUInt16)

def tierOfName (cur : Tier) (name : String) : Tier :=
  if name = "public" then .systemPublic
  else if name = "private" then .systemPrivate
  else if name = "vendor" then .vendor
  else cur

/-- A name without the sign that takes its types out of the set. -/
def splitSign (name : String) : Bool × String :=
  match name.toList with
  | '-' :: cs => (true, String.ofList cs)
  | _ => (false, name)

namespace Policy

variable (st : Policy)

/-- A type that the policy of a tier must not name. -/
def hidden (cur : Tier) (s : Nat) : Bool := cur = .vendor && st.tierOf s = some .systemPrivate

/-- One name of `parse_sid_expr`: the set and whether it names `self`. -/
def sidName (cur : Tier) (acc : SidSet × Bool) (tok : String) : Except Int (SidSet × Bool) :=
  let (out, isSelf) := acc
  let (neg, name) := splitSign tok
  if name = "self" then .ok (out, true)
  else if name = "*" then .ok (st.sidSetAddAttr out attrDomain, isSelf)
  else if nameToAttr name ≠ 0 then
    let attr := nameToAttr name
    .ok (if neg then st.sidSetDelAttr out attr else st.sidSetAddAttr out attr, isSelf)
  else
    let s := st.typeToSid name
    if s = 0 then .error (-einval)
    else if st.hidden cur s then .error (-einval)
    else .ok (if neg then out.del s else out.add s, isSelf)

def parseSidExpr (cur : Tier) : SidExpr → Except Int (SidSet × Bool)
  | none => .error (-einval)
  | some names => names.foldlM (st.sidName cur) ({}, false)

def allowSets (sset tset : SidSet) (isSelf : Bool) (tclass : SecClass) (perms : UInt32) : Policy :=
  (st.sids.filter sset.test).foldl (fun st s =>
    let st := if isSelf then st.allowSid s s tclass perms else st
    (st.sids.filter tset.test).foldl (fun st t => st.allowSid s t tclass perms) st) st

def addXpermSets (sset tset : SidSet) (tclass : Option SecClass) (isNever : Bool)
    (range : UInt16 × UInt16) : Policy :=
  (st.sids.filter sset.test).foldl (fun st s =>
    (st.sids.filter tset.test).foldl
      (fun st t => st.addXperm s t tclass range.1 range.2 isNever) st) st

/-- The permissions that names stand for.  All names are looked up in the first class. -/
def permsOf (named : List SecClass) (perms : List String) : UInt32 :=
  perms.foldl (fun acc name => acc ||| nameToPerm named.head? name) 0

def execRule (cur : Tier) (isNever : Bool) (src tgt : SidExpr) (classes perms : List String) :
    Except Int Policy := do
  let (sset, _) ← st.parseSidExpr cur src
  let (tset, isSelf) ← st.parseSidExpr cur tgt
  let named := classes.filterMap nameToSecclass
  let perms := permsOf named perms
  if named = [] ∨ perms = 0 then return st
  return (SecClass.all.filter (· ∈ named)).foldl (fun st tclass =>
    if isNever then st.addNeverallow { src := sset, tgt := tset, isSelf, tclass, perms }
    else st.allowSets sset tset isSelf tclass perms) st

def execXpermRule (cur : Tier) (isNever : Bool) (src tgt : SidExpr) (tclass : String)
    (ranges : List String) : Except Int Policy := do
  let (sset, _) ← st.parseSidExpr cur src
  let (tset, _) ← st.parseSidExpr cur tgt
  return ranges.foldl (fun st tok =>
    st.addXpermSets sset tset (nameToSecclass tclass) isNever (xpermRange tok)) st

def execTransition (cur : Tier) (isMacro : Bool) (sname tname dname : String) :
    Except Int Policy :=
  let ssid := st.typeToSid sname
  let tsid := st.typeToSid tname
  let dsid := st.typeToSid dname
  if ssid = 0 ∨ tsid = 0 ∨ dsid = 0 then .error (-einval)
  else if st.hidden cur ssid ∨ st.hidden cur tsid ∨ st.hidden cur dsid then .error (-einval)
  else if isMacro then .ok (st.addDomainAutoTrans ssid tsid dsid)
  else .ok (st.addTrans ssid tsid .process dsid)

def attrsOf (attrs : List String) : UInt32 := attrs.foldl (fun acc a => acc ||| nameToAttr a) 0

def execTypeattribute (name : String) (attrs : List String) : Policy :=
  let s := st.typeToSid name
  if s = 0 then st
  else { st with types := st.types.modify s fun e => { e with attrs := e.attrs ||| attrsOf attrs } }

def execInitDaemon (dname : String) : Policy :=
  let dsid := st.typeToSid dname
  let esid := st.typeToSid (dname ++ "_exec")
  if dsid = 0 ∨ esid = 0 then st else st.addDomainAutoTrans (sid .init) esid dsid

/-- What a statement does to the tier of the text and to the tables. -/
def exec (cur : Tier) : Statement → Except Int (Tier × Policy)
  | .tier name => .ok (tierOfName cur name, st)
  | .reset => .ok (cur, selinuxSeedBaselinePolicy)
  | .type name attrs =>
    .ok (cur, st.registerType name (attrs.contains "domain") cur (attrsOf attrs))
  | .typeattribute name attrs => .ok (cur, st.execTypeattribute name attrs)
  | .transition isMacro s t d => (st.execTransition cur isMacro s t d).map (cur, ·)
  | .initDaemonDomain d => .ok (cur, st.execInitDaemon d)
  | .skipped _ => .ok (cur, st)
  | .rule isNever src tgt classes perms =>
    (st.execRule cur isNever src tgt classes perms).map (cur, ·)
  | .xpermRule isNever src tgt tclass ranges =>
    (st.execXpermRule cur isNever src tgt tclass ranges).map (cur, ·)

/-- The statements up to the first that is refused.  What they did before stays. -/
def execAll (cur : Tier) (st : Policy) : List Statement → Policy × Int
  | [] => (st, 0)
  | s :: ss =>
    match st.exec cur s with
    | .error rc => (st, rc)
    | .ok (cur', st') => execAll cur' st' ss

/-- A policy text is loaded.  If the tables then break a rule, the baseline policy is restored. -/
def selinuxParseAndLoadPolicy (text : List Char) : Policy × Int :=
  let (st', rc) := execAll .systemPublic st (statements text)
  if rc ≠ 0 then (st', rc)
  else if st'.selinuxVerifyNeverallows ≠ 0 then
    (selinuxSeedBaselinePolicy, st'.selinuxVerifyNeverallows)
  else (st', 0)

end Policy

end Six.Selinux
