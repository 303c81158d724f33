import Recast.Dialogue.Session

/-!
A service that answers from a list of rules, for rehearsals. The first rule whose text occurs in
the last message answers; its replies are used in order, and the last one over and over.
-/

namespace Recast

/-- What a rule does when it answers. -/
inductive Reaction where
  | value (v : Value)
  | fail (why : Text)
  | crash (why : Text)
  | echo (before behind : Text) (changes : List (Text × Text))

structure ScriptReply where
  command : Option Command := none
  reaction : Reaction

structure Rule where
  occurring : Text
  replies : List ScriptReply

namespace Script

def lastContent (r : Request) : Text := (r.messages.getLast?.map Message.content).getD []

def ruleIndex? (rules : List Rule) (r : Request) : Option Nat :=
  rules.findIdx? fun rule => Text.occurs rule.occurring (lastContent r)

def plain (v : Value) : Reply :=
  match v with
  | .text s => .text s
  | v => .other v

/-- The text behind the heading of the code, or the whole request. -/
def quoted (content : Text) : Text :=
  match Text.cut? Session.codeHeading content with
  | some (_, behind) => behind
  | none => content

def Reaction.outcome (content : Text) : Reaction → Outcome
  | .value v => .reply (plain v)
  | .fail why => .failed why
  | .crash why => .crashed why
  | .echo before behind changes =>
    let body := changes.foldl (fun s c => Text.substitute c.1 c.2 s) (quoted content)
    .reply (.text (before ++ body ++ behind))

def answer (rules : List Rule) (past : List Request) (r : Request) : Answer :=
  match ruleIndex? rules r with
  | none => { outcome := .reply (.text []) }
  | some i =>
    let used := past.countP fun q => ruleIndex? rules q = some i
    let replies := (rules[i]?.map Rule.replies).getD []
    match (replies[used]?).orElse fun _ => replies.getLast? with
    | none => { outcome := .reply (.text []) }
    | some reply =>
      { commands := reply.command.toList, outcome := Reaction.outcome (lastContent r) reply.reaction }

/-- What an entry of a rule does; every form but a mapping is the reply itself. -/
def readReply (v : Value) : ScriptReply :=
  match v with
  | .dict _ =>
    let reaction : Reaction := match v.textAt? "fail", v.textAt? "crash", v.get? "echo" with
      | some why, _, _ => .fail why
      | none, some why, _ => .crash why
      | none, none, some around =>
        let parts := around.items.map fun i => i.text?.getD []
        .echo (parts[0]?.getD []) (parts[1]?.getD []) (v.field "replace").textPairs
      | none, none, none => .value ((v.get? "text").getD (.text []))
    ⟨(v.textAt? "do").bind Command.ofName?, reaction⟩
  | v => ⟨none, .value v⟩

def readRule (v : Value) : Rule := ⟨v.textAt "when", (v.itemsAt "replies").map readReply⟩

/-- How an attempt to reach the service ends. -/
def readReachable (v : Value) : Outcome :=
  match v.textAt? "fail", v.textAt? "crash" with
  | some why, _ => .failed why
  | none, some why => .crashed why
  | none, none => .reply (plain v)

def service (rules : List Rule) (reachable : Outcome) : Service := ⟨answer rules, reachable⟩

def read (v : Value) : Service :=
  service ((v.itemsAt "rules").map readRule) (readReachable ((v.get? "reachable").getD (.bool true)))

end Script

end Recast
