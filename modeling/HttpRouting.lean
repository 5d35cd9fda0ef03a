import HttpRouting.Chain.Stock
import HttpRouting.Proofs.Chain.AccessLog
import HttpRouting.Proofs.Chain.Deciding
import HttpRouting.Proofs.Chain.LastMatch
import HttpRouting.Proofs.Chain.PathFilter
import HttpRouting.Proofs.Chain.Program
import HttpRouting.Proofs.Chain.Trace
import HttpRouting.Proofs.Message.Responder
import HttpRouting.Proofs.Number.Integer
import HttpRouting.Proofs.Pattern.Encoding
import HttpRouting.Proofs.Pattern.Grammar
import HttpRouting.Proofs.Pattern.Separation
import HttpRouting.Proofs.Router.Answer
import HttpRouting.Proofs.Router.Calls
import HttpRouting.Proofs.Router.Freezing
import HttpRouting.Proofs.Router.Grouping
import HttpRouting.Proofs.Router.Independence
import HttpRouting.Proofs.Router.Items
import HttpRouting.Proofs.Router.Pruning
import HttpRouting.Proofs.Router.Representation
import HttpRouting.Proofs.Router.RoundTrip
import HttpRouting.Proofs.Router.Spelling
import HttpRouting.Proofs.Variables
import HttpRouting.Sample
