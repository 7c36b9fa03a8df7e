import LoxLang.Main
import LoxLang.Proofs.Execution.Agreement
import LoxLang.Proofs.Execution.BareBlocks
import LoxLang.Proofs.Execution.Equality
import LoxLang.Proofs.Execution.Globals
import LoxLang.Proofs.Execution.Grouping
import LoxLang.Proofs.Execution.Names
import LoxLang.Proofs.Execution.Shadowing
import LoxLang.Proofs.Execution.ShortCircuit
import LoxLang.Proofs.Grammar.CorrectPrefix
import LoxLang.Proofs.Grammar.Descent
import LoxLang.Proofs.Grammar.ForLoops
import LoxLang.Proofs.Lexical.Cursor
import LoxLang.Proofs.Number.RoundTrip
import LoxLang.Proofs.Reporting.Colors
import LoxLang.Proofs.Reporting.Diagnoses
import LoxLang.Proofs.Reporting.Templates
import LoxLang.Proofs.Scopes.Forests
import LoxLang.Proofs.Session.Histories
import LoxLang.Proofs.Session.Incomplete
import LoxLang.Proofs.Session.Interruptions
import LoxLang.Proofs.Session.Joining
import LoxLang.Proofs.Session.Layout
import LoxLang.Proofs.Session.Places
import LoxLang.Proofs.Session.Units
import LoxLang.Proofs.Shell.Entries
import LoxLang.Proofs.Shell.Prompts
import LoxLang.ScopeTree
import LoxLang.TokenCursor
