import SqlTokens.Config.Environment
import SqlTokens.Config.File
import SqlTokens.Lexer
import SqlTokens.Logger
import SqlTokens.Proofs.ClosingMarks
import SqlTokens.Proofs.Environment
import SqlTokens.Proofs.Keywords
import SqlTokens.Proofs.Layout
import SqlTokens.Proofs.LetterCase
import SqlTokens.Proofs.Lines
import SqlTokens.Proofs.Literals
import SqlTokens.Proofs.Loading
import SqlTokens.Proofs.Lookahead
import SqlTokens.Proofs.Persistence
import SqlTokens.Proofs.Places
import SqlTokens.Proofs.Records
import SqlTokens.Proofs.Resuming
import SqlTokens.Proofs.Saving
import SqlTokens.Proofs.Segments
import SqlTokens.Proofs.Skipping
import SqlTokens.Proofs.Tiling
import SqlTokens.Token.Json
