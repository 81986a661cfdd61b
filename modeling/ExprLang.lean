import ExprLang.Text.Word
import ExprLang.Text.Lines
import ExprLang.Token.Stream
import ExprLang.Tree.Equality
import ExprLang.Tree.Render
import ExprLang.Tree.Dump
import ExprLang.Tree.Dispatch
import ExprLang.Parser.Grammar
import ExprLang.Evaluation
import ExprLang.Execution
import ExprLang.Console.Command
import ExprLang.Main
import ExprLang.Proofs.DerivationEdges
import ExprLang.Proofs.Unambiguity
import ExprLang.Proofs.ParserRuns
import ExprLang.Proofs.ParserCompleteness
import ExprLang.Proofs.Beginnings
import ExprLang.Proofs.ParserSoundness
import ExprLang.Proofs.ParserExactness
import ExprLang.Proofs.Locality
import ExprLang.Proofs.EarliestFaults
import ExprLang.Proofs.TypeSoundness
import ExprLang.Proofs.Lexemes
import ExprLang.Proofs.WrittenTokens
import ExprLang.Proofs.RenderedPrograms
import ExprLang.Proofs.CompleteTrees
import ExprLang.Proofs.EvaluationOutcomes
import ExprLang.Proofs.EvaluationLevels
import ExprLang.Proofs.ExactArithmetic
import ExprLang.Proofs.MachineWords
import ExprLang.Proofs.RenderedMeaning
import ExprLang.Proofs.WholeTrees
import ExprLang.Proofs.ParsedPrograms
import ExprLang.Proofs.RunOutcomes
import ExprLang.Proofs.PrintedValues
import ExprLang.Proofs.Grouping
import ExprLang.Proofs.LexicalGrammar
import ExprLang.Proofs.LazyReading
import ExprLang.Proofs.KeptTokens
import ExprLang.Proofs.ParserOutcomes
import ExprLang.Proofs.QuotedText
import ExprLang.Proofs.DumpedTrees
import ExprLang.Proofs.Layout
import ExprLang.Proofs.ResumedScans
import ExprLang.Proofs.TokensInFront
import ExprLang.Proofs.MisplacedTokens
import ExprLang.Proofs.Semicolons
import ExprLang.Proofs.IncompleteTrees
import ExprLang.Proofs.StreamCursor
import ExprLang.Proofs.UnevaluatedParts
import ExprLang.Proofs.StatementSequences
import ExprLang.Proofs.OpenLevels
import ExprLang.Proofs.DeepNesting
import ExprLang.Proofs.NestingLevels
import ExprLang.Proofs.PrecedenceClimbing
import ExprLang.Proofs.EvaluationDepth
import ExprLang.Proofs.LineAnswers
import ExprLang.Proofs.FrontEnds
